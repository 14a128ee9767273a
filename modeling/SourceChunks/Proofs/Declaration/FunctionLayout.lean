import Mathlib
import SourceChunks.Proofs.Declaration.ReturnTypes
import SourceChunks.Proofs.Pattern.Best

/-!
# Texts of one function

A mask may hold one function and nothing else but white space.  Its header is then found as a
whole, since each word and each stretch of white space of it ends where the next one begins.
Behind the header, the brackets of the parameters and of the body are matched, and the return
type is passed over.  A function has its keyword in its header, so if the word stands before a
name and a parenthesis only once, no other function is found.

* `FunctionLayout`: what such a text consists of, and where its parts stand.
* `FunctionHeaderAt`: the keyword of a function at a place.
* `Patterns.exists_end_function`: the header is found where it begins.
* `Patterns.exists_of_mem_function`: wherever a header is found, it has the keyword in it.
* `FunctionLayout.callableParts_text`: what is found behind the header.
* `FunctionLayout.functions_text`: the functions of such a text.
-/

namespace SourceChunks

/-! ## Parts -/

/-- White space between two words. -/
structure Separator where
  /-- The white space. -/
  text : List Char
  nonempty : text ≠ []
  blank : Text.allBlank text = true

/-- The words that may stand before the keyword of a function, besides its visibility. -/
def functionQualifiers : List String :=
  ["isolated", "transactional", "remote"]

/-- One of these words, and the white space behind it. -/
structure Qualifier where
  /-- The word. -/
  word : String
  mem : word ∈ functionQualifiers
  /-- The white space. -/
  gap : Separator

/-- A return type without blocks, and the white space around it. -/
structure PlainReturns where
  /-- Both of them. -/
  text : List Char
  visible : Text.allBlank text = false
  apart : text.head?.any Text.isWord = false
  plain : IsPlain text
  complete : ¬ EndsInline text

/-- What a text consists of that declares one function, and nothing else. -/
structure FunctionLayout where
  /-- The white space before the declaration. -/
  lead : List Char
  /-- The white space behind the word `public`, if the word is there. -/
  visibility : Option Separator
  /-- The other words before the keyword. -/
  qualifiers : List Qualifier
  /-- The white space behind the keyword. -/
  gap : Separator
  /-- The name of the function. -/
  name : List Char
  /-- The white space behind the name. -/
  nameGap : List Char
  /-- What stands between the parentheses. -/
  parameters : List Char
  /-- The white space behind the parentheses. -/
  parametersGap : List Char
  /-- What stands between the word `returns` and the body, if the word is there. -/
  returns : Option PlainReturns
  /-- What stands between the braces. -/
  body : List Char
  /-- The white space behind the declaration. -/
  trail : List Char
  lead_blank : Text.allBlank lead = true
  name_nonempty : name ≠ []
  name_word : ∀ x ∈ name, Text.isWord x = true
  nameGap_blank : Text.allBlank nameGap = true
  parameters_balanced : Balanced '(' ')' parameters
  parametersGap_blank : Text.allBlank parametersGap = true
  body_balanced : Balanced '{' '}' body
  trail_blank : Text.allBlank trail = true

theorem Qualifier.word_cases (q : Qualifier) :
    q.word = "isolated" ∨ q.word = "transactional" ∨ q.word = "remote" := by
  simpa [functionQualifiers] using q.mem

/-! ## The text -/

/-- The word as it stands in a text. -/
def Qualifier.text (q : Qualifier) : List Char :=
  q.word.toList ++ q.gap.text

/-- Several words, one behind the other. -/
def qualifiersText : List Qualifier → List Char
  | [] => []
  | q :: qualifiers => q.text ++ qualifiersText qualifiers

/-- The visibility as it stands in a text. -/
def visibilityText : Option Separator → List Char
  | none => []
  | some gap => "public".toList ++ gap.text

/-- The return type behind the word `returns`. -/
def returnsText : Option PlainReturns → List Char
  | none => []
  | some type => "returns".toList ++ type.text

@[simp] theorem visibilityText_none : visibilityText none = [] := rfl

@[simp] theorem returnsText_none : returnsText none = [] := rfl

@[simp] theorem returnsText_some (type : PlainReturns) :
    returnsText (some type) = "returns".toList ++ type.text :=
  rfl

namespace FunctionLayout

variable (layout : FunctionLayout)

/-- What stands before the keyword. -/
def front : List Char :=
  visibilityText layout.visibility ++ qualifiersText layout.qualifiers

/-- What stands before the name. -/
def beforeName : List Char :=
  layout.front ++ "function".toList ++ layout.gap.text

/-- The header, up to its opening parenthesis. -/
def header : List Char :=
  layout.beforeName ++ layout.name ++ layout.nameGap ++ ['(']

/-- What stands behind the parameters. -/
def behind : List Char :=
  layout.parametersGap ++
    (returnsText layout.returns ++ '{' :: (layout.body ++ '}' :: layout.trail))

/-- The whole text. -/
def text : List Char :=
  layout.lead ++ (layout.header ++ (layout.parameters ++ ')' :: layout.behind))

/-- Where the keyword stands. -/
def keyword : Nat :=
  layout.lead.length + layout.front.length

/-- Where the name stands. -/
def nameSpan : Span :=
  ⟨layout.lead.length + layout.beforeName.length,
    layout.lead.length + layout.beforeName.length + layout.name.length⟩

/-- Where the parameters stand. -/
def parametersSpan : Span :=
  ⟨layout.lead.length + layout.header.length,
    layout.lead.length + layout.header.length + layout.parameters.length⟩

/-- Where the brace stands that opens the body. -/
def opening : Nat :=
  layout.parametersSpan.stop + 1 + layout.parametersGap.length + (returnsText layout.returns).length

/-- Where the return type stands, if there is one. -/
def returnsSpan : Option Span :=
  layout.returns.map fun _ =>
    ⟨layout.parametersSpan.stop + 1 + layout.parametersGap.length + "returns".length,
      layout.opening⟩

/-- Where what is between the braces stands. -/
def bodySpan : Span :=
  ⟨layout.opening + 1, layout.opening + 1 + layout.body.length⟩

/-- Where the declaration stands. -/
def span : Span :=
  ⟨layout.lead.length, layout.bodySpan.stop + 1⟩

end FunctionLayout

/-- At an offset of a text, the keyword `function` stands before a word and a parenthesis. -/
def FunctionHeaderAt (text : List Char) (keyword : Nat) : Prop :=
  ∃ (front : List Char) (gap : Separator) (name nameGap behind : List Char),
    text = front ++ ("function".toList ++ (gap.text ++ (name ++ (nameGap ++ '(' :: behind)))) ∧
      front.length = keyword ∧ front.getLast?.any Text.isWord = false ∧
      name ≠ [] ∧ (∀ x ∈ name, Text.isWord x = true) ∧ Text.allBlank nameGap = true

/-! ## The header -/

namespace Patterns

open Pattern

variable {rest : List Char}

/-- A word before the keyword of a function, and the white space behind it. -/
def functionQualifier : Pattern Part :=
  mark .qualifier (anyOf (functionQualifiers.map word)) ++ blanks

/-- What stands before the name of a function. -/
def functionLead : Pattern Part :=
  edge ++ visibility ++ many functionQualifier ++ word "function" ++ blanks

theorem function_eq :
    function = functionLead ++ declaredName ++ spaces ++ one (· == '(') :=
  rfl

theorem takes_blanks (gap : Separator) (hrest : ∀ x ∈ rest.head?, Text.isBlank x = false) :
    blanks.Takes gap.text rest :=
  takes_some1 gap.nonempty (List.all_eq_true.mp gap.blank) hrest

theorem takes_spaces {gap : List Char} (hgap : Text.allBlank gap = true)
    (hrest : ∀ x ∈ rest.head?, Text.isBlank x = false) : spaces.Takes gap rest :=
  takes_run (List.all_eq_true.mp hgap) hrest

theorem takes_functionQualifier (q : Qualifier)
    (hrest : ∀ x ∈ rest.head?, Text.isBlank x = false) :
    functionQualifier.Takes q.text rest := by
  refine takes_seq (takes_mark Part.qualifier ?_) (takes_blanks q.gap hrest)
  -- The words begin with different letters.
  have hrefuses : ∀ (text text' : String) (y z : Char), text.toList.head? = some y →
      text'.toList.head? = some z → z ≠ y → ∀ more,
        (word (L := Part) text).Refuses (text'.toList ++ more) := by
    intro text text' y z htext htext' hne more
    refine refuses_word htext ?_
    rw [head?_append_of_head? htext' more]
    exact fun heq => hne (Option.some.inj heq)
  rcases q.word_cases with hword | hword | hword <;> rw [hword]
  · exact takes_either_left (takes_word _ _)
  · exact takes_either_right (hrefuses "isolated" "transactional" 'i' 't' rfl rfl (by decide) _)
      (takes_either_left (takes_word _ _))
  · exact takes_either_right (hrefuses "isolated" "remote" 'i' 'r' rfl rfl (by decide) _)
      (takes_either_right (hrefuses "transactional" "remote" 't' 'r' rfl rfl (by decide) _)
        (takes_word _ _))

theorem refuses_functionQualifier (hrest : rest.head? = some 'f') :
    functionQualifier.Refuses rest := by
  have hne : ∀ y ≠ 'f', rest.head? ≠ some y := by
    rintro y hy heq
    exact hy (Option.some.inj (heq.symm.trans hrest))
  exact refuses_seq (refuses_mark Part.qualifier
    (refuses_either (refuses_word (y := 'i') rfl (hne 'i' (by decide)))
      (refuses_either (refuses_word (y := 't') rfl (hne 't' (by decide)))
        (refuses_word (y := 'r') rfl (hne 'r' (by decide))))))

/-- The words before the keyword of a function do not begin as the word `public` does. -/
theorem head?_qualifiersText (qualifiers : List Qualifier) (more : List Char) :
    ∃ x, (qualifiersText qualifiers ++ ("function".toList ++ more)).head? = some x ∧
      Text.isWord x = true ∧ x ≠ 'p' := by
  cases qualifiers with
  | nil => exact ⟨'f', rfl, by decide, by decide⟩
  | cons q qualifiers =>
      have hhead : ∀ {x : Char}, q.word.toList.head? = some x →
          (qualifiersText (q :: qualifiers) ++ ("function".toList ++ more)).head? = some x :=
        fun hx => head?_append_of_head? (head?_append_of_head? (head?_append_of_head? hx _) _) _
      rcases q.word_cases with hword | hword | hword <;> rw [hword] at hhead
      · exact ⟨'i', hhead rfl, by decide, by decide⟩
      · exact ⟨'t', hhead rfl, by decide, by decide⟩
      · exact ⟨'r', hhead rfl, by decide, by decide⟩

theorem takes_functionQualifiers (qualifiers : List Qualifier) (more : List Char) :
    (many functionQualifier).Takes (qualifiersText qualifiers) ("function".toList ++ more) := by
  have hconsumes : functionQualifier.Consumes := consumes_of_progresses (by decide)
  induction qualifiers with
  | nil => exact takes_many_nil (refuses_functionQualifier rfl)
  | cons q qualifiers ih =>
      refine takes_many_cons hconsumes (takes_functionQualifier q ?_) ih
      obtain ⟨x, hhead, hword, -⟩ := head?_qualifiersText qualifiers more
      rw [hhead]
      rintro y ⟨⟩
      exact Text.isBlank_of_isWord hword

/-- The visibility is marked if the word is there. -/
theorem exists_end_visibility (visible : Option Separator) {x : Char}
    (hrest : rest.head? = some x) (hword : Text.isWord x = true) (hx : x ≠ 'p') {c : Cursor Part}
    (hc : c.rest = visibilityText visible ++ rest) (hmarks : c.marks = []) :
    ∃ d, (ends visibility c).head? = some d ∧ d.rest = rest ∧
      d.offset = c.offset + (visibilityText visible).length ∧
      (d.marks.find? (·.1 = Part.visibility)).isSome = visible.isSome := by
  cases visible with
  | none =>
      have hrefuses : (mark Part.visibility (word "public") ++ blanks).Refuses rest :=
        refuses_seq (refuses_mark _ (refuses_word (y := 'p') rfl (by simp [hrest, hx])))
      refine ⟨c, ?_, hc, rfl, by rw [hmarks]; rfl⟩
      rw [visibility, maybe, ends, hrefuses c hc]
      rfl
  | some gap =>
      have hblank : ∀ y ∈ rest.head?, Text.isBlank y = false := by
        rw [hrest]
        rintro y ⟨⟩
        exact Text.isBlank_of_isWord hword
      have htakes : (mark Part.visibility (word "public") ++ blanks).Takes
          (visibilityText (some gap)) rest :=
        takes_seq (takes_mark _ (takes_word _ _)) (takes_blanks gap hblank)
      obtain ⟨d, hd, hmem, hbehind, hoffset⟩ := htakes.exists_end hc
      have hmarked : (mark Part.visibility (word "public") ++ blanks).Marks Part.visibility := by
        decide
      obtain ⟨span, hspan⟩ := exists_mark_of_mem_ends hmarked hmem
      refine ⟨d, head?_append_of_head? hd _, hbehind, hoffset, ?_⟩
      exact List.find?_isSome.mpr ⟨_, hspan, by simp⟩

/-- The header of a function begins with a word. -/
theorem head?_front (layout : FunctionLayout) (more : List Char) :
    (layout.front ++ ("function".toList ++ more)).head?.any Text.isWord = true := by
  rw [FunctionLayout.front, List.append_assoc]
  cases layout.visibility with
  | none =>
      obtain ⟨x, hhead, hword, -⟩ := head?_qualifiersText layout.qualifiers more
      rw [visibilityText_none, List.nil_append, hhead]
      exact hword
  | some gap => exact (by decide : Text.isWord 'p' = true)

/-- What stands before the name of a function is found where it begins. -/
theorem exists_end_functionLead (layout : FunctionLayout) {c : Cursor Part}
    (hc : c.rest = layout.beforeName ++ rest) (hrest : ∀ x ∈ rest.head?, Text.isBlank x = false)
    (hbefore : c.before.any Text.isWord = false) (hmarks : c.marks = []) :
    ∃ d, (ends functionLead c).head? = some d ∧ d.rest = rest ∧
      d.offset = c.offset + layout.beforeName.length ∧
      (d.marks.find? (·.1 = Part.visibility)).isSome = layout.visibility.isSome := by
  have hfront : c.rest = layout.front ++ ("function".toList ++ (layout.gap.text ++ rest)) := by
    rw [hc]
    simp only [FunctionLayout.beforeName, List.append_assoc]
  have hedge : (ends (edge : Pattern Part) c).head? = some c := by
    have hhead := head?_front layout (layout.gap.text ++ rest)
    rw [← hfront] at hhead
    rw [ends, Cursor.atEdge, hbefore, hhead]
    rfl
  -- The places behind the visibility, the other words, the keyword, and the white space.
  obtain ⟨x, hx, hxword, hxne⟩ := head?_qualifiersText layout.qualifiers (layout.gap.text ++ rest)
  obtain ⟨visible, hvisible, hvisibleRest, hvisibleOffset, hmarked⟩ :=
    exists_end_visibility layout.visibility hx hxword hxne
      (by rw [hfront, FunctionLayout.front, List.append_assoc]) hmarks
  obtain ⟨qualified, hqualified, hqualifiedMem, hqualifiedRest, hqualifiedOffset⟩ :=
    (takes_functionQualifiers layout.qualifiers _).exists_end hvisibleRest
  obtain ⟨keyword, hkeyword, hkeywordMem, hkeywordRest, hkeywordOffset⟩ :=
    (takes_word "function" _).exists_end hqualifiedRest
  obtain ⟨d, hd, hdMem, hdRest, hdOffset⟩ := (takes_blanks layout.gap hrest).exists_end hkeywordRest
  refine ⟨d, ?_, hdRest, ?_, ?_⟩
  · exact head?_flatMap_of_head? (head?_flatMap_of_head? (head?_flatMap_of_head?
      (head?_flatMap_of_head? hedge hvisible) hqualified) hkeyword) hd
  · simp only [FunctionLayout.beforeName, FunctionLayout.front, List.length_append]
    omega
  · rw [find_mark_of_mem_ends (by decide) hdMem, find_mark_of_mem_ends (by decide) hkeywordMem,
      find_mark_of_mem_ends (by decide) hqualifiedMem, hmarked]

/-- A word does not begin with white space. -/
theorem isBlank_head?_word {name : List Char} (hne : name ≠ [])
    (hword : ∀ x ∈ name, Text.isWord x = true) (more : List Char) :
    ∀ y ∈ (name ++ more).head?, Text.isBlank y = false := by
  obtain ⟨x, name, rfl⟩ := List.exists_cons_of_ne_nil hne
  rintro y ⟨⟩
  exact Text.isBlank_of_isWord (hword x List.mem_cons_self)

/-- White space in front of a character that is in no word does not begin with a word. -/
theorem isWord_head?_blanks {gap : List Char} (hgap : Text.allBlank gap = true) {c : Char}
    (hc : Text.isWord c = false) (more : List Char) :
    ∀ y ∈ (gap ++ c :: more).head?, Text.isWord y = false := by
  cases gap with
  | nil =>
      rintro y ⟨⟩
      exact hc
  | cons x gap =>
      rintro y ⟨⟩
      exact Text.isWord_of_isBlank (List.all_eq_true.mp hgap x List.mem_cons_self)

/-- The header of a function is found where it begins, with its name and visibility. -/
theorem exists_end_function (layout : FunctionLayout) {c : Cursor Part}
    (hc : c.rest = layout.header ++ rest) (hbefore : c.before.any Text.isWord = false)
    (hmarks : c.marks = []) :
    ∃ d, (ends function c).head? = some d ∧ d.rest = rest ∧
      d.offset = c.offset + layout.header.length ∧
      d.marks.find? (·.1 = Part.name) = some (Part.name, ⟨c.offset + layout.beforeName.length,
        c.offset + layout.beforeName.length + layout.name.length⟩) ∧
      (d.marks.find? (·.1 = Part.visibility)).isSome = layout.visibility.isSome := by
  have hsplit : c.rest =
      layout.beforeName ++ (layout.name ++ (layout.nameGap ++ (['('] ++ rest))) := by
    rw [hc]
    simp only [FunctionLayout.header, List.append_assoc]
  have hparen : ∀ y ∈ (['('] ++ rest).head?, Text.isBlank y = false := by
    rintro y ⟨⟩
    decide
  have hname := isBlank_head?_word layout.name_nonempty layout.name_word
    (layout.nameGap ++ (['('] ++ rest))
  have hspaces := isWord_head?_blanks layout.nameGap_blank (c := '(') (by decide) rest
  -- The places before the name, behind it, and at the parenthesis.
  obtain ⟨lead, hlead, hleadRest, hleadOffset, hmarked⟩ :=
    exists_end_functionLead layout hsplit hname hbefore hmarks
  obtain ⟨word, hword, hwordMem, hwordRest, hwordOffset⟩ :=
    (takes_some1 layout.name_nonempty layout.name_word hspaces).exists_end hleadRest
  have hnamed : (ends declaredName lead).head? = some (word.withMark Part.name lead.offset) := by
    rw [declaredName, ends, List.head?_map, hword]
    rfl
  obtain ⟨spaced, hspaced, hspacedMem, hspacedRest, hspacedOffset⟩ :=
    (takes_spaces layout.nameGap_blank hparen).exists_end
      (show (word.withMark Part.name lead.offset).rest = _ from hwordRest)
  obtain ⟨d, hd, hdMem, hdRest, hdOffset⟩ :=
    (takes_one (L := Part) (· == '(') rfl rest).exists_end hspacedRest
  refine ⟨d, ?_, hdRest, ?_, ?_, ?_⟩
  · exact head?_flatMap_of_head? (head?_flatMap_of_head? (head?_flatMap_of_head?
      hlead hnamed) hspaced) hd
  · have hmarkOffset : (word.withMark Part.name lead.offset).offset = word.offset := rfl
    simp only [FunctionLayout.header, List.length_append]
    omega
  · rw [find_mark_of_mem_ends (by decide) hdMem, find_mark_of_mem_ends (by decide) hspacedMem,
      ← hleadOffset, ← hwordOffset]
    rfl
  · have hmem : word.withMark Part.name lead.offset ∈ ends declaredName lead :=
      List.mem_of_mem_head? hnamed
    rw [find_mark_of_mem_ends (by decide) hdMem, find_mark_of_mem_ends (by decide) hspacedMem,
      find_mark_of_mem_ends (by decide) hmem, hmarked]

/-! ## The keyword in a header -/

/-- What ends with white space, if it is there, ends where it began or behind white space. -/
def StaysOrBlank (c d : Cursor Part) : Prop :=
  d = c ∨ ∃ x, d.before = some x ∧ Text.isBlank x = true

theorem StaysOrBlank.trans {c d e : Cursor Part} (h : StaysOrBlank c d) (h' : StaysOrBlank d e) :
    StaysOrBlank c e := by
  rcases h' with rfl | hblank
  · exact h
  · exact .inr hblank

theorem staysOrBlank_of_mem_visibility {c d : Cursor Part} (hd : d ∈ ends visibility c) :
    StaysOrBlank c d := by
  rcases List.mem_append.mp hd with hd | hd
  · obtain ⟨e, -, hd⟩ := List.mem_flatMap.mp hd
    exact .inr (before_of_mem_some1 hd)
  · exact .inl (List.mem_singleton.mp hd)

theorem staysOrBlank_of_mem_qualifiers {c d : Cursor Part}
    (hd : d ∈ ends (many functionQualifier) c) : StaysOrBlank c d := by
  refine of_mem_roundEnds (R := StaysOrBlank) (fun c => .inl rfl) .trans ?_ hd
  intro c d hd
  obtain ⟨e, -, hd⟩ := List.mem_flatMap.mp hd
  exact .inr (before_of_mem_some1 hd)

/-- The places that the header of a function passes on its way. -/
theorem exists_way_of_mem_function {c d : Cursor Part} (hd : d ∈ ends function c) :
    ∃ visible qualified keyword lead named spaced,
      c.atEdge = true ∧ visible ∈ ends visibility c ∧
      qualified ∈ ends (many functionQualifier) visible ∧
      keyword ∈ ends (word "function") qualified ∧ lead ∈ ends blanks keyword ∧
      named ∈ ends declaredName lead ∧ spaced ∈ ends spaces named ∧
      d ∈ ends (one (· == '(')) spaced := by
  rw [function_eq] at hd
  obtain ⟨spaced, hfront, hparen⟩ := List.mem_flatMap.mp hd
  obtain ⟨named, hfront, hspaced⟩ := List.mem_flatMap.mp hfront
  obtain ⟨lead, hfront, hnamed⟩ := List.mem_flatMap.mp hfront
  obtain ⟨keyword, hfront, hblanks⟩ := List.mem_flatMap.mp hfront
  obtain ⟨qualified, hfront, hkeyword⟩ := List.mem_flatMap.mp hfront
  obtain ⟨visible, hfront, hqualified⟩ := List.mem_flatMap.mp hfront
  obtain ⟨start, hstart, hvisible⟩ := List.mem_flatMap.mp hfront
  obtain ⟨hedge, rfl⟩ := eq_of_mem_ite hstart
  exact ⟨visible, qualified, keyword, lead, named, spaced, hedge, hvisible, hqualified, hkeyword,
    hblanks, hnamed, hspaced, hparen⟩

/-- The header of a function has the keyword in it, before which no word stands directly. -/
theorem exists_of_mem_function {c d : Cursor Part} (hd : d ∈ ends function c) :
    ∃ (passed : List Char) (gap : Separator) (name nameGap : List Char),
      c.rest = passed ++ ("function".toList ++ (gap.text ++ (name ++ (nameGap ++ '(' :: d.rest)))) ∧
      (passed.getLast?.or c.before).any Text.isWord = false ∧
      name ≠ [] ∧ (∀ x ∈ name, Text.isWord x = true) ∧ Text.allBlank nameGap = true := by
  obtain ⟨visible, qualified, keyword, lead, named, spaced, hedge, hvisible, hqualified, hkeyword,
    hblanks, hnamed, hspaced, hparen⟩ := exists_way_of_mem_function hd
  -- What is passed over on the way.
  obtain ⟨visibleText, hvisibleLeads⟩ := leads_of_mem_ends hvisible
  obtain ⟨qualifiedText, hqualifiedLeads⟩ := leads_of_mem_ends hqualified
  obtain ⟨keywordText, hkeywordLeads, hword⟩ := spells_of_mem_ends hkeyword
  obtain ⟨gap, hgap, hgapSpells⟩ := spells_of_mem_ends hblanks
  obtain ⟨name, hname, hnameSpells⟩ := spells_of_mem_ends hnamed
  obtain ⟨nameGap, hnameGap, hnameGapSpells⟩ := spells_of_mem_ends hspaced
  obtain ⟨paren, hparenLeads, y, hy, rfl⟩ := spells_of_mem_ends hparen
  obtain rfl := spells_word.mp hword
  obtain rfl : y = '(' := beq_iff_eq.mp hy
  obtain ⟨hgapNonempty, hgapBlank⟩ := spells_some1.mp hgapSpells
  obtain ⟨hnameNonempty, hnameWord⟩ := spells_some1.mp hnameSpells
  have hfirst := hvisibleLeads.trans hqualifiedLeads
  have hwhole := ((((hfirst.trans hkeywordLeads).trans hgap).trans hname).trans hnameGap).trans
    hparenLeads
  refine ⟨visibleText ++ qualifiedText, ⟨gap, hgapNonempty, List.all_eq_true.mpr hgapBlank⟩, name,
    nameGap, ?_, ?_, hnameNonempty, hnameWord, List.all_eq_true.mpr hnameGapSpells⟩
  · rw [hwhole.rest_eq]
    simp only [List.append_assoc, List.singleton_append]
  · rw [← hfirst.before_eq]
    rcases (staysOrBlank_of_mem_visibility hvisible).trans
      (staysOrBlank_of_mem_qualifiers hqualified) with rfl | ⟨x, hx, hblank⟩
    · -- Nothing is before the keyword, which is at the edge where the header begins.
      have hhead : qualified.rest.head? = some 'f' := by
        rw [hkeywordLeads.rest_eq]
        rfl
      rw [Cursor.atEdge, hhead] at hedge
      revert hedge
      cases qualified.before.any Text.isWord <;> decide
    · rw [hx]
      exact Text.isWord_of_isBlank hblank

end Patterns

/-- The keyword at such an offset. -/
theorem FunctionHeaderAt.isPrefix {text : List Char} {keyword : Nat}
    (h : FunctionHeaderAt text keyword) :
    keyword < text.length ∧ "function".toList <+: text.drop keyword := by
  obtain ⟨front, gap, name, nameGap, behind, rfl, rfl, -⟩ := h
  rw [List.drop_left]
  exact ⟨by simp, List.prefix_append _ _⟩

/-- Every match of the pattern has a keyword in it. -/
theorem exists_keyword_of_found {text : List Char} {m : Match Part}
    (hm : Patterns.function.Found text m) :
    ∃ keyword, FunctionHeaderAt text keyword ∧ m.span.start ≤ keyword ∧ keyword < m.span.stop := by
  obtain ⟨front, rest, d, rfl, -, hd, rfl⟩ := hm
  obtain ⟨passed, gap, name, nameGap, hrest, hbefore, hname, hword, hblank⟩ :=
    Patterns.exists_of_mem_function hd
  have hoffset := Pattern.offset_add_length_of_mem_ends hd
  have hlength := congrArg List.length hrest
  simp only [List.length_append, List.length_cons] at hoffset hlength
  have hkeyword : "function".toList.length = 8 := by decide
  refine ⟨(front ++ passed).length,
    ⟨front ++ passed, gap, name, nameGap, d.rest, ?_, rfl, ?_, hname, hword, hblank⟩, ?_, ?_⟩
  · rw [List.append_assoc, ← hrest]
  · rwa [List.getLast?_append]
  · simp
  · show (front ++ passed).length < d.offset
    rw [List.length_append]
    omega

namespace FunctionLayout

variable (layout : FunctionLayout)

theorem keyword_lt : layout.keyword < layout.lead.length + layout.header.length := by
  have hkeyword : "function".toList.length = 8 := by decide
  simp only [keyword, header, beforeName, List.length_append]
  omega

/-- If there is one keyword only, there is one match only, from the beginning of the declaration
to the parenthesis. -/
theorem allMatches_function
    (honly : ∀ keyword, FunctionHeaderAt layout.text keyword → keyword = layout.keyword) :
    ∃ m, Patterns.function.allMatches layout.text = [m] ∧
      m.span = ⟨layout.lead.length, layout.lead.length + layout.header.length⟩ ∧
      m.part? .name = some layout.nameSpan ∧
      m.hasPart .visibility = layout.visibility.isSome := by
  have hbefore : layout.lead.getLast?.any Text.isWord = false := by
    cases hlast : layout.lead.getLast? with
    | none => rfl
    | some x =>
        exact Text.isWord_of_isBlank
          (List.all_eq_true.mp layout.lead_blank x (List.mem_of_getLast? hlast))
  obtain ⟨d, hd, -, hoffset, hname, hvisible⟩ :=
    Patterns.exists_end_function layout
      (c := ⟨layout.lead.getLast?, layout.header ++ (layout.parameters ++ ')' :: layout.behind),
        layout.lead.length, []⟩) rfl hbefore rfl
  have hstop : d.offset = layout.lead.length + layout.header.length := hoffset
  have hedge : Patterns.function.AtEdge := trivial
  refine ⟨⟨⟨layout.lead.length, d.offset⟩, d.marks⟩, ?_, by rw [hstop], ?_, ?_⟩
  · refine Pattern.allMatches_of_matchAt hedge (List.all_eq_true.mp layout.lead_blank)
      (by simp [header]) ?_ ?_
    · rw [Pattern.matchAt_eq, hd]
      rfl
    · -- Another match would have the one keyword in it, which is before its beginning.
      intro m hm hprecedes
      obtain ⟨keyword, hkeyword, hstart, -⟩ :=
        exists_keyword_of_found (Pattern.found_of_mem_allMatches hm)
      obtain rfl := honly keyword hkeyword
      have hlt := layout.keyword_lt
      have hle : d.offset ≤ m.span.start := hprecedes.2
      omega
  · rw [Match.part?, hname]
    rfl
  · rw [Match.hasPart, Match.part?, Option.isSome_map]
    exact hvisible

/-! ## Behind the header -/

theorem drop_parameters :
    layout.text.drop layout.parametersSpan.start =
      layout.parameters ++ ')' :: layout.behind := by
  rw [text, ← List.append_assoc]
  exact List.drop_left' List.length_append

@[simp] theorem drop_behind :
    layout.text.drop (layout.parametersSpan.stop + 1) = layout.behind := by
  have hstop : layout.parametersSpan.stop + 1 =
      layout.parametersSpan.start + (layout.parameters ++ [')']).length := by
    rw [List.length_append]
    rfl
  have hsplit : layout.parameters ++ ')' :: layout.behind =
      layout.parameters ++ [')'] ++ layout.behind := by
    simp
  rw [hstop, ← List.drop_drop, drop_parameters, hsplit, List.drop_left]

@[simp] theorem drop_body :
    layout.text.drop layout.bodySpan.start = layout.body ++ '}' :: layout.trail := by
  have hstart : layout.bodySpan.start = layout.parametersSpan.stop + 1 +
      (layout.parametersGap ++ returnsText layout.returns ++ ['{']).length := by
    simp only [bodySpan, opening, List.length_append, List.length_singleton]
    omega
  have hsplit : layout.behind = layout.parametersGap ++ returnsText layout.returns ++ ['{'] ++
      (layout.body ++ '}' :: layout.trail) := by
    simp [behind]
  rw [hstart, ← List.drop_drop, drop_behind, hsplit, List.drop_left]

@[simp] theorem slice_name : layout.nameSpan.slice layout.text = layout.name := by
  have hsplit : layout.text = layout.lead ++ layout.beforeName ++
      (layout.name ++
        (layout.nameGap ++ ['('] ++ (layout.parameters ++ ')' :: layout.behind))) := by
    simp [text, header]
  have hdrop : layout.text.drop (layout.lead.length + layout.beforeName.length) =
      layout.name ++ _ :=
    hsplit ▸ List.drop_left' List.length_append
  exact Span.slice_of_drop hdrop

theorem slice_returns {type : PlainReturns} (h : layout.returns = some type) :
    ∃ span, layout.returnsSpan = some span ∧ span.slice layout.text = type.text := by
  have hkeyword : "returns".toList.length = "returns".length := by decide
  have hsplit : layout.behind = layout.parametersGap ++ "returns".toList ++
      (type.text ++ '{' :: (layout.body ++ '}' :: layout.trail)) := by
    simp only [behind, h, returnsText_some, List.append_assoc]
  have hdrop : layout.text.drop
      (layout.parametersSpan.stop + 1 + layout.parametersGap.length + "returns".length) =
        type.text ++ '{' :: (layout.body ++ '}' :: layout.trail) := by
    rw [Nat.add_assoc, ← hkeyword, ← List.length_append, ← List.drop_drop, drop_behind, hsplit,
      List.drop_left]
  have hopening : layout.opening = layout.parametersSpan.stop + 1 + layout.parametersGap.length +
      "returns".length + type.text.length := by
    rw [opening, h, returnsText_some, List.length_append, hkeyword, ← Nat.add_assoc]
  refine ⟨_, by rw [returnsSpan, h, Option.map_some], ?_⟩
  rw [hopening]
  exact Span.slice_of_drop hdrop

theorem span_bounds :
    layout.span.start < layout.span.stop ∧ layout.span.stop ≤ layout.text.length := by
  have hbody := congrArg List.length layout.drop_body
  simp only [List.length_drop, List.length_append, List.length_cons] at hbody
  simp only [span, bodySpan, opening, parametersSpan] at hbody ⊢
  omega

/-- Behind the parameters, the return type and the body are found. -/
theorem callableTail_behind :
    callableTail? (layout.parametersSpan.stop + 1) layout.behind =
      some ⟨layout.returnsSpan, layout.opening⟩ := by
  rw [callableTail_eq_some_iff, behind, returnsSpan, opening]
  generalize layout.parametersSpan.stop + 1 = offset
  have hgap := List.all_eq_true.mp layout.parametersGap_blank
  cases layout.returns with
  | none =>
      rw [returnsText_none, List.nil_append, List.length_nil, Nat.add_zero, Option.map_none]
      exact .bare hgap
  | some type =>
      have hword : (type.text ++ '{' :: (layout.body ++ '}' :: layout.trail)).head?.any
          Text.isWord = false := by
        rw [List.head?_append]
        have hapart := type.apart
        cases hhead : type.text.head? with
        | none => exact (by decide : Text.isWord '{' = false)
        | some x => rwa [hhead] at hapart
      have hkeyword : "returns".toList.length = "returns".length := by decide
      have hopening : offset + layout.parametersGap.length +
          ("returns".toList ++ type.text).length =
            offset + layout.parametersGap.length + "returns".length + type.text.length := by
        rw [List.length_append, hkeyword, ← Nat.add_assoc]
      rw [returnsText_some, List.append_assoc, Option.map_some, hopening]
      exact .returns hgap hword (.plain type.plain) type.complete rfl

/-- From the parenthesis on, all parts of the function are found. -/
theorem callableParts_text :
    callableParts layout.text layout.parametersSpan.start =
      .ok ⟨layout.parametersSpan, ⟨layout.returnsSpan, layout.opening⟩, layout.span.stop⟩ := by
  have hparameters := closingFrom_of_level (by decide) layout.parametersSpan.start
    (layout.parameters_balanced.level_eq (by decide) 0) layout.behind
  have hbody := closingFrom_of_level (by decide) layout.bodySpan.start
    (layout.body_balanced.level_eq (by decide) 0) layout.trail
  have hstop : layout.parametersSpan.start + layout.parameters.length + 1 =
      layout.parametersSpan.stop + 1 :=
    rfl
  have hblock : Bracket.blockEndFrom (layout.opening + 1) (layout.text.drop (layout.opening + 1)) =
      some layout.span.stop := by
    rw [← drop_body] at hbody
    exact hbody
  rw [callableParts, drop_parameters, hparameters, hstop]
  simp only [drop_behind, callableTail_behind, hblock]
  rfl

/-- A text of one function has one function, if it has one keyword only. -/
theorem functions_text
    (honly : ∀ keyword, FunctionHeaderAt layout.text keyword → keyword = layout.keyword) :
    ∃ qualifiers, Locate.functions layout.text =
      [.declared ⟨layout.span, .function layout.visibility.isSome layout.nameSpan
        ⟨qualifiers, layout.parametersSpan, layout.returnsSpan, layout.opening⟩⟩] := by
  obtain ⟨m, hm, hspan, hname, hvisible⟩ := layout.allMatches_function honly
  -- Before the function there is only white space, so it is outside of all blocks.
  have hlead : '{' ∉ layout.lead := fun hmem =>
    absurd (List.all_eq_true.mp layout.lead_blank _ hmem) (by decide)
  have htop := BlockMap.isTopLevel_of_blockDepth (blockDepth_eq_zero hlead)
    (layout.header ++ (layout.parameters ++ ')' :: layout.behind))
  have henclosing : (BlockMap.ofMask layout.text).enclosing? m.span.start = none := by
    rw [hspan]
    exact Option.isNone_iff_eq_none.mp htop
  have hparts : callableParts layout.text m.span.stop =
      .ok ⟨layout.parametersSpan, ⟨layout.returnsSpan, layout.opening⟩, layout.span.stop⟩ := by
    rw [hspan]
    exact layout.callableParts_text
  refine ⟨m.parts .qualifier, ?_⟩
  rw [Locate.functions, hm, List.map_singleton, henclosing]
  show [Locate.functionOutcome layout.text m] = _
  rw [Locate.functionOutcome_eq_declared.mpr ⟨_, hparts, rfl⟩, Locate.functionShape,
    Locate.part, hname, hvisible, hspan]
  rfl

end FunctionLayout

end SourceChunks
