import Mathlib
import SourceChunks.Proofs.Declaration.Offsets
import SourceChunks.Proofs.Declaration.Values
import SourceChunks.Proofs.Pattern.Order
import SourceChunks.Proofs.Source.Matching

/-!
# Values that are told twice

A search for one kind of declaration knows nothing of the others, and top level is a matter of
braces only.  So a line can be taken for a module variable although it continues a constant, or
is a parameter of a function.  What keeps the kinds apart are the reserved words, the line
start of a module variable, and that no header of a value holds a parenthesis.

* `overlapping_values`: where a module variable overlaps a constant or configurable variable.
* `values_in_parameters`: what a value takes to be found in a parameter list.
-/

namespace SourceChunks

namespace Locate

variable {text : List Char} {v c f d : Declaration Span}

/-- What a search finds as a constant or as a configurable variable. -/
def declaredByKeyword (mask : List Char) : List (Declaration Span) :=
  declarations (configurables mask) ++ declarations (constants mask)

theorem keywordHeader_of_mem {mask : List Char} (hc : c ∈ declaredByKeyword mask) :
    ∃ equals, Assigns mask c.span equals ∧
      KeywordHeader ((⟨c.span.start, equals⟩ : Span).slice mask) := by
  rcases List.mem_append.mp hc with hc | hc
  · exact keywordHeader_of_configurable hc
  · exact keywordHeader_of_constant hc

/-! ## Variables and constants -/

/-- From no place before its type on does the header of a module variable read as one with a
keyword. -/
theorem not_keywordHeader_of_variable {mask : List Char} {span type : Span} {equals i : Nat}
    (h : VariableHeader mask span type equals) (htype : type.slice mask ∉ valueKeywords)
    (hle : span.start ≤ i) (hi : i ≤ type.start) :
    ¬ KeywordHeader ((⟨i, equals⟩ : Span).slice mask) := by
  obtain ⟨qualifiers, name, hwords, hqualifiers⟩ := h.words_from hle hi
  exact not_keywordHeader hwords hqualifiers htype

/-- Behind the type of a module variable there are too few words for a keyword. -/
theorem not_keywordHeader_behind {mask : List Char} {span type : Span} {equals i : Nat}
    (h : VariableHeader mask span type equals) (hi : type.stop ≤ i) (hle : i ≤ equals) :
    ¬ KeywordHeader ((⟨i, equals⟩ : Span).slice mask) := by
  rintro ⟨lead, keyword, types, name, hwords, -, -⟩
  obtain ⟨name', hname⟩ := h.named
  have hsuffix : (⟨i, equals⟩ : Span).slice mask <:+ (⟨type.stop, equals⟩ : Span).slice mask := by
    rw [Span.slice_split hi hle]
    exact List.suffix_append _ _
  have hlength := (Text.areLast_words hsuffix).length_le
  rw [hname, hwords] at hlength
  simp only [List.length_append, List.length_cons, List.length_nil] at hlength
  omega

/-- A module variable and a constant or configurable variable that overlap end with the same
semicolon, and the later one begins

* behind the line end after which the module variable begins, as in a constant whose qualifier
  stands on a line of its own;
* behind the equals sign of the module variable, in its value; or
* in the type of the module variable, as in one of the type `a.final`.

So the reserved words do their part: the two never begin at the same place, and the keyword is
never a qualifier, the type or the name of the module variable. -/
theorem overlapping_values (hv : v ∈ declarations (moduleVariables (mask text)))
    (hc : c ∈ declaredByKeyword (mask text)) (hlt : v.span.start < c.span.stop)
    (hlt' : c.span.start < v.span.stop) :
    v.span.stop = c.span.stop ∧
      ((c.span.start < v.span.start ∧
          '\n' ∈ (⟨c.span.start, v.span.start⟩ : Span).slice (mask text)) ∨
        (v.span.start < c.span.start ∧
          '=' ∈ (⟨v.span.start, c.span.start⟩ : Span).slice (mask text)) ∨
        ∃ type name, v.shape = .moduleVariable type name ∧ type.start < c.span.start ∧
          c.span.start < type.stop) := by
  obtain ⟨type, name, equals, hshape, hheader, hreserved⟩ := variableHeader_of_mem hv
  obtain ⟨equals', hassigns, hkeyword⟩ := keywordHeader_of_mem hc
  refine ⟨hheader.assigns.stop_eq hassigns hlt hlt', ?_⟩
  by_cases hbefore : c.span.start < v.span.start
  · -- If both began on one line, only white space would be between the two.
    obtain ⟨line, hline, hnewline, hblank⟩ := hheader.line
    refine .inl ⟨hbefore, ?_⟩
    by_cases hsame : line ≤ c.span.start
    · have hequals : v.span.start ≤ equals' := by
        by_contra hgt
        have hstart := hassigns.start_le
        exact absurd (hblank equals' (by omega) (by omega) '=' hassigns.equals_at) (by decide)
      have heq := hassigns.equals_eq hheader.assigns hbefore.le hequals
      have hwhite : ∀ x ∈ (⟨c.span.start, v.span.start⟩ : Span).slice (mask text),
          Text.isBlank x = true := by
        intro x hx
        obtain ⟨i, hle, hi, hx⟩ := Span.mem_slice_iff.mp hx
        exact hblank i (hsame.trans hle) hi x hx
      have hnot := not_keywordHeader_of_variable hheader hreserved le_rfl hheader.start_le
      refine absurd ?_ hnot
      unfold KeywordHeader at hkeyword ⊢
      rwa [Span.slice_split hbefore.le hequals, Text.words_blanks_append hwhite, ← heq] at hkeyword
    · rcases hnewline with rfl | hnewline
      · exact absurd (Nat.zero_le _) hsame
      · exact Span.mem_slice_iff.mpr ⟨line - 1, by simp only; omega, by simp only; omega, hnewline⟩
  · rw [not_lt] at hbefore
    by_cases hvalue : equals < c.span.start
    · have hstart := hheader.assigns.start_le
      exact .inr (.inl ⟨by omega,
        Span.mem_slice_iff.mpr ⟨equals, hstart, hvalue, hheader.assigns.equals_at⟩⟩)
    · rw [not_lt] at hvalue
      obtain rfl := hheader.assigns.equals_eq hassigns hbefore hvalue
      refine .inr (.inr ⟨type, name, hshape, ?_, ?_⟩)
      · by_contra hle
        exact not_keywordHeader_of_variable hheader hreserved hbefore (not_lt.mp hle) hkeyword
      · by_contra hle
        exact not_keywordHeader_behind hheader (not_lt.mp hle) hvalue hkeyword

/-- A constant on two lines. -/
def constantOnTwoLines : List Char :=
  "final\nint x = 1;".toList

theorem overlapping_values_constantOnTwoLines :
    ∃ v ∈ declarations (moduleVariables (mask constantOnTwoLines)),
      ∃ c ∈ declaredByKeyword (mask constantOnTwoLines),
        (v.span.start < c.span.stop ∧ c.span.start < v.span.stop) ∧ v.span.stop = c.span.stop := by
  have hv : ⟨⟨6, 16⟩, .moduleVariable ⟨6, 9⟩ ⟨10, 11⟩⟩ ∈
      declarations (moduleVariables (mask constantOnTwoLines)) := by decide +kernel
  have hc : ⟨⟨0, 16⟩, .constant false (some ⟨6, 9⟩) ⟨10, 11⟩⟩ ∈
      declaredByKeyword (mask constantOnTwoLines) := by decide +kernel
  exact ⟨_, hv, _, hc, by decide, (overlapping_values hv hc (by decide) (by decide)).1⟩

/-- A constant whose qualifier stands on a line of its own is also told as a variable. -/
theorem constantOnTwoLines_toldTwice :
    ∃ v ∈ declarations (moduleVariables (mask constantOnTwoLines)),
      ∃ c ∈ declarations (constants (mask constantOnTwoLines)),
        v.span.start < c.span.stop ∧ c.span.start < v.span.stop := by
  decide +kernel

/-! ## Parameters -/

/-- The parameters behind a match that ends with a parenthesis begin there. -/
theorem opening_of_parts {p : Pattern Part} {m : Match Part} {parts : CallableParts}
    {text mask : List Char} (htext : text <+: mask)
    (hm : (p ++ Pattern.one (· == '(')).Found text m)
    (hparts : callableParts mask m.span.stop = .ok parts) :
    0 < parts.parameters.start ∧ mask[parts.parameters.start - 1]? = some '(' := by
  obtain ⟨behind, -, -, -, -, -, -, -, hparameters, -⟩ := exists_of_callableParts hparts
  obtain ⟨hpos, x, hx, hat⟩ := Pattern.last_of_found_one htext hm
  obtain rfl := beq_iff_eq.mp hx
  rw [hparameters]
  exact ⟨hpos, hat⟩

/-- The parameters end at the parenthesis that closes them. -/
theorem closing_of_parts {mask : List Char} {start : Nat} {parts : CallableParts}
    (hparts : callableParts mask start = .ok parts) :
    mask[parts.parameters.stop]? = some ')' := by
  obtain ⟨behind, -, -, hbehind, -, -, -, -, hparameters, -⟩ := exists_of_callableParts hparts
  obtain ⟨inside, after, hinside, rfl, -⟩ := exists_of_closingFrom hbehind
  have hat : (mask.drop start)[inside.length]? = some ')' := by
    rw [hinside, List.getElem?_append_right le_rfl, Nat.sub_self]
    rfl
  rw [List.getElem?_drop] at hat
  rw [hparameters]
  exact hat

/-- The parentheses around the parameters of a function. -/
theorem parens_of_function {mask : List Char} {isPublic : Bool} {name : Span}
    {callable : Callable Span} (hf : f ∈ declarations (functions mask))
    (hshape : f.shape = .function isPublic name callable) :
    0 < callable.parameters.start ∧ mask[callable.parameters.start - 1]? = some '(' ∧
      mask[callable.parameters.stop]? = some ')' := by
  obtain ⟨m, hm, -, parts, hparts, rfl⟩ := mem_functions.mp hf
  obtain ⟨-, -, rfl⟩ := Shape.function.inj hshape
  obtain ⟨hpos, hopening⟩ :=
    opening_of_parts List.prefix_rfl (Pattern.found_of_mem_allMatches hm) hparts
  exact ⟨hpos, hopening, closing_of_parts hparts⟩

/-- A value that begins in the parameter list of a function has its equals sign there as well.
If it is told as a module variable it begins a line of the list, and otherwise the list holds
its keyword.  So nothing is declared in a list without a default, and no module variable in a
list on one line. -/
theorem values_in_parameters {isPublic : Bool} {name : Span} {callable : Callable Span}
    (hf : f ∈ declarations (functions (mask text)))
    (hshape : f.shape = .function isPublic name callable)
    (hstart : callable.parameters.start ≤ d.span.start)
    (hstop : d.span.start < callable.parameters.stop) :
    (d ∈ declarations (moduleVariables (mask text)) →
      '=' ∈ (⟨d.span.start, callable.parameters.stop⟩ : Span).slice (mask text) ∧
        '\n' ∈ (⟨callable.parameters.start, d.span.start⟩ : Span).slice (mask text)) ∧
    (d ∈ declaredByKeyword (mask text) →
      '=' ∈ (⟨d.span.start, callable.parameters.stop⟩ : Span).slice (mask text) ∧
        ∃ keyword ∈ valueKeywords,
          keyword <:+: (⟨d.span.start, callable.parameters.stop⟩ : Span).slice (mask text)) := by
  obtain ⟨hpos, hopening, hclosing⟩ := parens_of_function hf hshape
  have hequals : ∀ {equals}, Assigns (mask text) d.span equals →
      equals < callable.parameters.stop ∧
        '=' ∈ (⟨d.span.start, callable.parameters.stop⟩ : Span).slice (mask text) := by
    intro equals h
    have hlt := h.equals_lt_of_paren hstop.le hclosing
    exact ⟨hlt, Span.mem_slice_iff.mpr ⟨equals, h.start_le, hlt, h.equals_at⟩⟩
  constructor
  · intro hd
    obtain ⟨type, name, equals, -, hheader, -⟩ := variableHeader_of_mem hd
    refine ⟨(hequals hheader.assigns).2, ?_⟩
    obtain ⟨line, hle, hnewline, hblank⟩ := hheader.line
    -- The parenthesis is no white space, so the line begins behind it.
    have hline : callable.parameters.start ≤ line := by
      by_contra hlt
      exact absurd (hblank _ (by omega) (by omega) '(' hopening) (by decide)
    rcases hnewline with rfl | hnewline
    · omega
    · have hne : line ≠ callable.parameters.start := by
        rintro rfl
        rw [hopening] at hnewline
        exact absurd hnewline (by decide)
      exact Span.mem_slice_iff.mpr ⟨line - 1, by simp only; omega, by simp only; omega, hnewline⟩
  · intro hd
    obtain ⟨equals, hassigns, lead, keyword, types, name, hwords, hkeyword, -⟩ :=
      keywordHeader_of_mem hd
    obtain ⟨hlt, hmem⟩ := hequals hassigns
    refine ⟨hmem, keyword, hkeyword, ?_⟩
    have hinfix := Text.infix_of_mem_words (t := (⟨d.span.start, equals⟩ : Span).slice (mask text))
      (w := keyword) (by rw [hwords]; simp)
    rw [Span.slice_split hassigns.start_le hlt.le]
    exact hinfix.trans (List.prefix_append _ _).isInfix

/-- A function with a default value on a line of its own. -/
def defaultOnItsLine : List Char :=
  "function f(\nint a = 1) \x7b\nreturn a;\n\x7d".toList

theorem function_of_defaultOnItsLine :
    ⟨⟨0, 36⟩, .function false ⟨9, 10⟩ ⟨[], ⟨11, 21⟩, none, 23⟩⟩ ∈
      declarations (functions (mask defaultOnItsLine)) := by
  decide +kernel

theorem variable_of_defaultOnItsLine :
    ⟨⟨12, 34⟩, .moduleVariable ⟨12, 15⟩ ⟨16, 17⟩⟩ ∈
      declarations (moduleVariables (mask defaultOnItsLine)) := by
  decide +kernel

theorem values_in_parameters_defaultOnItsLine :
    '=' ∈ (⟨12, 21⟩ : Span).slice (mask defaultOnItsLine) ∧
      '\n' ∈ (⟨11, 12⟩ : Span).slice (mask defaultOnItsLine) :=
  (values_in_parameters function_of_defaultOnItsLine rfl (by decide) (by decide)).1
    variable_of_defaultOnItsLine

/-- A default value on a line of its own is told as the value of a module variable. -/
theorem defaultOnItsLine_declared :
    ∃ f ∈ declarations (functions (mask defaultOnItsLine)), ∃ isPublic name callable,
      f.shape = .function isPublic name callable ∧
      ∃ d ∈ declarations (moduleVariables (mask defaultOnItsLine)),
        callable.parameters.start ≤ d.span.start ∧ d.span.start < callable.parameters.stop :=
  ⟨_, function_of_defaultOnItsLine, _, _, _, rfl, _, variable_of_defaultOnItsLine, by decide⟩

end Locate

end SourceChunks
