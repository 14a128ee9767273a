import Mathlib
import SourceChunks.Proofs.Declaration.FunctionLayout
import SourceChunks.Proofs.Declaration.Outlined
import SourceChunks.Proofs.Declaration.Overlap
import SourceChunks.Proofs.Declaration.Values
import SourceChunks.Proofs.Source.Comments
import SourceChunks.Proofs.Text.SingleSpaced

/-!
# What stands in the header of a function or resource

The pattern of a header marks its parts.  Between them it passes over white space and over the
words that every such header has, so the header can be put together again from its parts, but
for the white space in it.

* `Cursor.Records`: one place leads to another one, and some parts are marked on the way.
* `records_qualifiers`: a row of qualifiers is put together from those that it marks.
* `Shows`: what a stretch of a mask shows, but for white space; the text shows the same where no
  comment begins.
* `function_header`: the header of a function, up to its opening parenthesis.
* `resource_header`: the header of a resource, up to its path and behind it.
* `parts_header`: the header of both, behind the parameters.
-/

namespace SourceChunks

/-! ## Marks on the way -/

/-- One place leads to another one over some characters, and some parts are marked on the way,
the latest first. -/
structure Cursor.Records {L : Type} (passed : List Char) (marks : List (L × Span))
    (c d : Cursor L) : Prop where
  leads : Cursor.Leads passed c d
  marks_eq : d.marks = marks ++ c.marks

namespace Cursor.Records

variable {L : Type} {passed more : List Char} {marks marks' : List (L × Span)} {c d e : Cursor L}

theorem refl (c : Cursor L) : Records [] [] c c :=
  ⟨.refl c, rfl⟩

theorem trans (h : Records passed marks c d) (h' : Records more marks' d e) :
    Records (passed ++ more) (marks' ++ marks) c e :=
  ⟨h.leads.trans h'.leads, by rw [h'.marks_eq, h.marks_eq, List.append_assoc]⟩

end Cursor.Records

namespace Pattern

variable {L : Type} {p : Pattern L} {label : L} {c d : Cursor L}

/-- A pattern without labels marks nothing. -/
theorem records_of_unmarked (hp : p.labels = []) (hd : d ∈ ends p c) :
    ∃ passed, Cursor.Records passed [] c d ∧ p.Spells passed := by
  obtain ⟨passed, hlead, hspells⟩ := spells_of_mem_ends hd
  obtain ⟨more, hmore, hallowed⟩ := labels_of_mem_ends hd
  rw [hp] at hallowed
  have hnil : more = [] := List.eq_nil_iff_forall_not_mem.mpr
    fun mark hmark => List.not_mem_nil (hallowed mark hmark)
  exact ⟨passed, ⟨hlead, by rw [hmore, hnil]⟩, hspells⟩

/-- What a pattern passes over holds none of the characters that its classes avoid. -/
theorem notMem_of_leads {xs passed : List Char} (hp : p.avoids xs = true) (hd : d ∈ ends p c)
    (hlead : Cursor.Leads passed c d) : ∀ x ∈ passed, x ∉ xs := by
  obtain ⟨passed', hlead', hpassed⟩ :=
    passes_of_mem_ends (reads_of_avoids (fun x hx => hx) hp) hd
  obtain rfl : passed' = passed :=
    List.append_cancel_right (hlead'.rest_eq.symm.trans hlead.rest_eq)
  exact hpassed

/-- A marked pattern without labels of its own marks what it passes over. -/
theorem records_of_mark (hp : p.labels = []) (hd : d ∈ ends (mark label p) c) :
    ∃ passed, Cursor.Records passed [(label, ⟨c.offset, d.offset⟩)] c d ∧ p.Spells passed := by
  obtain ⟨e, he, rfl⟩ := List.mem_map.mp hd
  obtain ⟨passed, hrecords, hspells⟩ := records_of_unmarked hp he
  refine ⟨passed, ⟨hrecords.leads.withMark label, ?_⟩, hspells⟩
  rw [Cursor.withMark, hrecords.marks_eq]
  rfl

end Pattern

/-! ## Words in front of the keyword -/

/-- Whether a text does not begin with white space. -/
def beginsVisibly (s : List Char) : Bool :=
  s.head?.all (!Text.isBlank ·)

theorem beginsVisibly_append {s t : List Char} (hs : beginsVisibly s = true)
    (ht : beginsVisibly t = true) : beginsVisibly (s ++ t) = true := by
  cases s with
  | nil => exact ht
  | cons x s => exact hs

theorem beginsVisibly_append_of_ne_nil {s : List Char} (hne : s ≠ []) (hs : beginsVisibly s = true)
    (t : List Char) : beginsVisibly (s ++ t) = true := by
  cases s with
  | nil => contradiction
  | cons x s => exact hs

namespace Patterns

open Pattern

variable {text : List Char} {label : Part} {c d : Cursor Part}

/-- What some marked parts hold, in the order of the text. -/
def marksText (text : List Char) (marks : List (Part × Span)) : List Char :=
  marks.reverse.flatMap fun mark => mark.2.slice text

@[simp] theorem marksText_append (text : List Char) (marks marks' : List (Part × Span)) :
    marksText text (marks' ++ marks) = marksText text marks ++ marksText text marks' := by
  rw [marksText, List.reverse_append, List.flatMap_append]
  rfl

/-- What is passed over is made of the parts with some label that are marked on the way, and of
white space behind them. -/
structure IsMarked (label : Part) (text passed : List Char) (marks : List (Part × Span)) :
    Prop where
  labels : ∀ mark ∈ marks, mark.1 = label
  text_eq : Text.visible passed = Text.visible (marksText text marks)
  begins : beginsVisibly passed = true

theorem isMarked_nil (label : Part) (text : List Char) : IsMarked label text [] [] :=
  ⟨by simp, rfl, rfl⟩

theorem IsMarked.append {passed passed' : List Char} {marks marks' : List (Part × Span)}
    (h : IsMarked label text passed marks) (h' : IsMarked label text passed' marks') :
    IsMarked label text (passed ++ passed') (marks' ++ marks) where
  labels := List.forall_mem_append.mpr ⟨h'.labels, h.labels⟩
  text_eq := by
    rw [marksText_append, Text.visible_append, Text.visible_append, h.text_eq, h'.text_eq]
  begins := beginsVisibly_append h.begins h'.begins

/-- A marked word and the white space behind it. -/
theorem records_word {p : Pattern Part} (hp : p.labels = [])
    (hwords : ∀ s, p.Spells s → s ≠ [] ∧ beginsVisibly s = true)
    (hrest : c.rest = text.drop c.offset) (hd : d ∈ ends (mark label p ++ blanks) c) :
    ∃ word gap span, Cursor.Records (word ++ gap) [(label, span)] c d ∧
      IsMarked label text (word ++ gap) [(label, span)] ∧ p.Spells word ∧
      span.slice text = word := by
  obtain ⟨e, he, hd⟩ := List.mem_flatMap.mp hd
  obtain ⟨word, hword, hspells⟩ := records_of_mark hp he
  obtain ⟨gap, hgap, hgapSpells⟩ := records_of_unmarked rfl hd
  obtain ⟨-, hblank⟩ := spells_some1.mp hgapSpells
  obtain ⟨hne, hbegins⟩ := hwords word hspells
  have hslice := (rest_of_leads hrest hword.leads).2
  refine ⟨word, gap, _, hword.trans hgap, ⟨by simp, ?_, ?_⟩, hspells, hslice⟩
  · rw [Text.visible_append, Text.visible_of_blanks hblank, List.append_nil]
    simp [marksText, hslice]
  · exact beginsVisibly_append_of_ne_nil hne hbegins gap

/-- The visibility in front of a header, if it is there. -/
theorem records_visibility (hrest : c.rest = text.drop c.offset) (hd : d ∈ ends visibility c) :
    ∃ passed marks, Cursor.Records passed marks c d ∧ IsMarked .visibility text passed marks ∧
      Text.visible passed = if !marks.isEmpty then "public".toList else [] := by
  rcases List.mem_append.mp hd with hd | hd
  · have hwords : ∀ s, (word (L := Part) "public").Spells s → s ≠ [] ∧ beginsVisibly s = true := by
      intro s hs
      rw [spells_word.mp hs]
      exact ⟨by decide, by decide⟩
    obtain ⟨word, gap, span, hrecords, hmarked, hspells, hslice⟩ :=
      records_word rfl hwords hrest hd
    refine ⟨_, _, hrecords, hmarked, ?_⟩
    rw [hmarked.text_eq]
    simp only [marksText, List.reverse_singleton, List.flatMap_singleton, hslice]
    rw [spells_word.mp hspells]
    rfl
  · rw [List.mem_singleton.mp hd]
    exact ⟨[], [], .refl c, isMarked_nil _ _, rfl⟩

theorem labels_literal (s : List Char) : (literal (L := Part) s).labels = [] := by
  induction s with
  | nil => rfl
  | cons c s ih => exact ih

theorem labels_anyOf_words (choices : List String) :
    (anyOf (L := Part) (choices.map word)).labels = [] := by
  induction choices with
  | nil => rfl
  | cons choice choices ih =>
      cases choices with
      | nil => exact labels_literal _
      | cons choice' choices =>
          show (word choice).labels ++ (anyOf ((choice' :: choices).map word)).labels = []
          rw [ih, word, labels_literal, List.append_nil]

/-- A row of qualifiers is put together from those that it marks. -/
theorem records_qualifiers {choices : List String} (hne : choices ≠ [])
    (hchoices : ∀ choice ∈ choices, choice.toList ≠ [] ∧ beginsVisibly choice.toList = true)
    (hrest : c.rest = text.drop c.offset) (hd : d ∈ ends (qualifiers choices) c) :
    ∃ passed marks, Cursor.Records passed marks c d ∧ IsMarked .qualifier text passed marks := by
  have hwords : ∀ s, (anyOf (L := Part) (choices.map word)).Spells s →
      s ≠ [] ∧ beginsVisibly s = true := by
    intro s hs
    obtain ⟨choice, hchoice, rfl⟩ := spells_anyOf_words choices hne hs
    exact hchoices choice hchoice
  -- Round by round: each of them marks a word.
  revert hrest
  refine of_mem_roundEnds (R := fun c d => c.rest = text.drop c.offset → ∃ passed marks,
    Cursor.Records passed marks c d ∧ IsMarked .qualifier text passed marks) ?_ ?_ ?_ hd
  · exact fun c _ => ⟨[], [], .refl c, isMarked_nil _ _⟩
  · intro c d e hfirst hsecond hrest
    obtain ⟨passed, marks, hrecords, hmarked⟩ := hfirst hrest
    obtain ⟨passed', marks', hrecords', hmarked'⟩ :=
      hsecond (rest_of_leads hrest hrecords.leads).1
    exact ⟨_, _, hrecords.trans hrecords', hmarked.append hmarked'⟩
  · intro c d hd hrest
    obtain ⟨word, gap, span, hrecords, hmarked, -, -⟩ :=
      records_word (labels_anyOf_words choices) hwords hrest hd
    exact ⟨_, _, hrecords, hmarked⟩

/-- A word and the white space behind it, neither of which is marked. -/
theorem records_keyword {s : String} (hd : d ∈ ends (word s ++ blanks) c) :
    ∃ gap, Cursor.Records (s.toList ++ gap) [] c d ∧ ∀ x ∈ gap, Text.isBlank x = true := by
  obtain ⟨e, he, hd⟩ := List.mem_flatMap.mp hd
  obtain ⟨passed, hword, hspells⟩ := records_of_unmarked (labels_literal _) he
  obtain rfl := spells_word.mp hspells
  obtain ⟨gap, hgap, hgapSpells⟩ := records_of_unmarked rfl hd
  exact ⟨gap, hword.trans hgap, (spells_some1.mp hgapSpells).2⟩

/-- White space up to a parenthesis. -/
theorem records_paren (hd : d ∈ ends (spaces ++ one (· == '(')) c) :
    ∃ gap, Cursor.Records (gap ++ ['(']) [] c d ∧ ∀ x ∈ gap, Text.isBlank x = true := by
  obtain ⟨e, he, hd⟩ := List.mem_flatMap.mp hd
  obtain ⟨gap, hgap, hblank⟩ := records_of_unmarked rfl he
  obtain ⟨passed, hparen, y, hy, rfl⟩ := records_of_unmarked rfl hd
  obtain rfl := beq_iff_eq.mp hy
  exact ⟨gap, hgap.trans hparen, hblank⟩

/-! ## Parts of a match -/

section

variable {marks marks' : List (Part × Span)}

theorem filter_of_labels (h : ∀ mark ∈ marks, mark.1 = label) :
    marks.filter (·.1 = label) = marks :=
  List.filter_eq_self.mpr fun mark hmark => decide_eq_true (h mark hmark)

theorem filter_of_other {other : Part} (h : ∀ mark ∈ marks, mark.1 = other) (hne : other ≠ label) :
    marks.filter (·.1 = label) = [] := by
  rw [List.filter_eq_nil_iff]
  intro mark hmark heq
  exact hne ((h mark hmark).symm.trans (of_decide_eq_true heq))

theorem hasPart_eq (m : Match Part) (label : Part) :
    m.hasPart label = !(m.marks.filter (·.1 = label)).isEmpty := by
  rw [Match.hasPart, Match.part?, Option.isSome_map, ← List.head?_filter]
  cases m.marks.filter (·.1 = label) <;> rfl

theorem flatMap_parts (text : List Char) (m : Match Part) (label : Part) :
    (m.parts label).flatMap (·.slice text) = marksText text (m.marks.filter (·.1 = label)) := by
  rw [Match.parts, marksText, List.flatMap_map]

end

end Patterns

/-! ## Stretches of a mask -/

/-- Whether a character is neither white space nor a quote. -/
def IsBare (x : Char) : Prop :=
  Text.isBlank x = false ∧ x ∉ quotes

instance : DecidablePred IsBare := fun x =>
  inferInstanceAs (Decidable (Text.isBlank x = false ∧ x ∉ quotes))

theorem notMem_quotes_of_isBlank {x : Char} (hx : Text.isBlank x = true) : x ∉ quotes := by
  intro hmem
  have hall : quotes.all (!Text.isBlank ·) = true := by decide
  have hnot := List.all_eq_true.mp hall x hmem
  rw [hx] at hnot
  contradiction

/-- A stretch of a mask that begins with a visible character and has no quote in it, and what it
shows but for white space. -/
structure Shows (mask : List Char) (span : Span) (shown : List Char) : Prop where
  start_lt : span.start < span.stop
  stop_le : span.stop ≤ mask.length
  visible_eq : Text.visible (span.slice mask) = shown
  begins : ∃ x, mask[span.start]? = some x ∧ Text.isBlank x = false
  plain : ∀ x ∈ span.slice mask, x ∉ quotes

namespace Shows

variable {mask shown : List Char} {span : Span}

theorem of_split {front passed behind : List Char} (hmask : mask = front ++ (passed ++ behind))
    (hne : passed ≠ []) (hbegins : beginsVisibly passed = true)
    (hplain : ∀ x ∈ passed, x ∉ quotes) :
    Shows mask ⟨front.length, front.length + passed.length⟩ (Text.visible passed) := by
  have hslice := Span.slice_of_split hmask rfl rfl
  obtain ⟨x, passed, rfl⟩ := List.exists_cons_of_ne_nil hne
  refine ⟨?_, ?_, by rw [hslice], ⟨x, ?_, by simpa [beginsVisibly] using hbegins⟩, ?_⟩
  · simp
  · simp [hmask]
  · simp [hmask]
  · rwa [hslice]

/-- A character and a word, with white space between them. -/
theorem of_gap {front gap word behind : List Char} {x : Char}
    (hmask : mask = front ++ (x :: (gap ++ word) ++ behind)) (hx : IsBare x)
    (hgap : ∀ y ∈ gap, Text.isBlank y = true) (hword : ∀ y ∈ word, IsBare y) :
    Shows mask ⟨front.length, front.length + (x :: (gap ++ word)).length⟩ (x :: word) := by
  have hplain : ∀ y ∈ x :: (gap ++ word), y ∉ quotes :=
    List.forall_mem_cons.mpr ⟨hx.2, List.forall_mem_append.mpr
      ⟨fun y hy => notMem_quotes_of_isBlank (hgap y hy), fun y hy => (hword y hy).2⟩⟩
  have hshown := of_split hmask (List.cons_ne_nil _ _) (by simp [beginsVisibly, hx.1]) hplain
  rwa [Text.visible_cons hx.1, Text.visible_append, Text.visible_of_blanks hgap,
    Text.visible_eq_self fun y hy => (hword y hy).1] at hshown

/-- What one place leads to another one over. -/
theorem of_leads {L : Type} {passed : List Char} {c d : Cursor L}
    (hrest : c.rest = mask.drop c.offset) (hle : c.offset ≤ mask.length)
    (hlead : Cursor.Leads passed c d) (hne : passed ≠ []) (hbegins : beginsVisibly passed = true)
    (hplain : ∀ x ∈ passed, x ∉ quotes) :
    Shows mask ⟨c.offset, d.offset⟩ (Text.visible passed) := by
  have hmask : mask = mask.take c.offset ++ (passed ++ d.rest) := by
    rw [← hlead.rest_eq, hrest, List.take_append_drop]
  have hshows := of_split hmask hne hbegins hplain
  rwa [List.length_take_of_le hle, ← hlead.offset_eq] at hshows

/-- From the last character that one place leads to another one over, up to the end of a word
behind it. -/
theorem of_last {L : Type} {before gap word : List Char} {x : Char} {c d e : Cursor L}
    (hrest : c.rest = mask.drop c.offset) (hfirst : Cursor.Leads (before ++ [x]) c d)
    (hmore : Cursor.Leads (gap ++ word) d e) (hx : IsBare x)
    (hgap : ∀ y ∈ gap, Text.isBlank y = true) (hword : ∀ y ∈ word, IsBare y) :
    mask[d.offset - 1]? = some x ∧ Shows mask ⟨d.offset - 1, e.offset⟩ (x :: word) := by
  have hle : c.offset ≤ mask.length := by
    by_contra hlt
    have hnil : mask.drop c.offset = [] := List.drop_eq_nil_of_le (by omega)
    rw [← hrest, hfirst.rest_eq] at hnil
    simp at hnil
  have hmask : mask = (mask.take c.offset ++ before) ++ (x :: (gap ++ word) ++ e.rest) := by
    conv_lhs => rw [← List.take_append_drop c.offset mask, ← hrest, hfirst.rest_eq, hmore.rest_eq]
    simp
  have hfront : (mask.take c.offset ++ before).length = d.offset - 1 := by
    rw [hfirst.offset_eq, List.length_append, List.length_append, List.length_take_of_le hle]
    rfl
  have hstop : d.offset - 1 + (x :: (gap ++ word)).length = e.offset := by
    rw [hmore.offset_eq, hfirst.offset_eq, List.length_append, List.length_singleton,
      List.length_cons]
    omega
  have hshown := of_gap hmask hx hgap hword
  rw [hfront, hstop] at hshown
  refine ⟨?_, hshown⟩
  rw [hmask, ← hfront, List.getElem?_append_right le_rfl, Nat.sub_self]
  rfl

/-- What a front of a mask shows. -/
theorem of_prefix {front : List Char} (hfront : front <+: mask) (h : Shows front span shown) :
    Shows mask span shown := by
  obtain ⟨behind, rfl⟩ := hfront
  have hslice : span.slice (front ++ behind) = span.slice front := Span.slice_append _ _ h.stop_le
  obtain ⟨x, hx, hvisible⟩ := h.begins
  refine ⟨h.start_lt, ?_, by rw [hslice, h.visible_eq], ⟨x, ?_, hvisible⟩, by
    rw [hslice]
    exact h.plain⟩
  · rw [List.length_append]
    exact h.stop_le.trans (Nat.le_add_right _ _)
  · rw [List.getElem?_append_left (List.getElem?_eq_some_iff.mp hx).1, hx]

/-- Where no comment begins, the text shows the same. -/
theorem visible_text {text : List Char} (h : Shows (SourceChunks.mask text) span shown)
    (hcomments : ∀ i ∈ comments text, i < span.start ∨ span.stop ≤ i) :
    Text.visible (span.slice text) = shown := by
  obtain ⟨x, hx, hvisible⟩ := h.begins
  rw [slice_eq_of_uncommented h.start_lt.le hx hvisible h.plain hcomments, h.visible_eq]

end Shows

namespace Patterns

open Pattern

/-! ## Functions -/

variable {mask text : List Char} {c d : Cursor Part} {m : Match Part}

@[simp] theorem visible_function : Text.visible "function".toList = "function".toList := by
  decide

@[simp] theorem visible_resource : Text.visible "resource".toList = "resource".toList := by
  decide

/-- The way through the header of a function. -/
theorem records_function (hrest : c.rest = text.drop c.offset) (hd : d ∈ ends function c) :
    ∃ passed visibleMarks qualifiedMarks name,
      Cursor.Records passed ((Part.name, name) :: (qualifiedMarks ++ visibleMarks)) c d ∧
      (∀ mark ∈ visibleMarks, mark.1 = Part.visibility) ∧
      (∀ mark ∈ qualifiedMarks, mark.1 = Part.qualifier) ∧
      passed ≠ [] ∧ beginsVisibly passed = true ∧
      Text.visible passed = (if !visibleMarks.isEmpty then "public".toList else []) ++
        Text.visible (marksText text qualifiedMarks) ++ "function".toList ++
        Text.visible (name.slice text) ++ ['('] := by
  obtain ⟨visible, qualified, keyword, lead, named, spaced, -, hvisible, hqualified, hkeyword,
    hblanks, hnamed, hspaced, hparen⟩ := exists_way_of_mem_function hd
  obtain ⟨visibleText, visibleMarks, hvisible, hvisibleMarked, hpublic⟩ :=
    records_visibility hrest hvisible
  obtain ⟨qualifiedText, qualifiedMarks, hqualified, hqualifiedMarked⟩ :=
    records_qualifiers (by decide) (by decide) (rest_of_leads hrest hvisible.leads).1 hqualified
  obtain ⟨gap, hkeyword, hgap⟩ :=
    records_keyword (List.mem_flatMap.mpr ⟨keyword, hkeyword, hblanks⟩)
  obtain ⟨name, hname, -⟩ := records_of_mark rfl hnamed
  obtain ⟨nameGap, hparen, hnameGap⟩ :=
    records_paren (List.mem_flatMap.mpr ⟨spaced, hspaced, hparen⟩)
  have hlead := (hvisible.trans hqualified).trans hkeyword
  have hnameSlice := (rest_of_leads (rest_of_leads hrest hlead.leads).1 hname.leads).2
  refine ⟨_, visibleMarks, qualifiedMarks, _, (hlead.trans hname).trans hparen,
    hvisibleMarked.labels, hqualifiedMarked.labels, by simp, ?_, ?_⟩
  · simp only [List.append_assoc]
    exact beginsVisibly_append hvisibleMarked.begins
      (beginsVisibly_append hqualifiedMarked.begins rfl)
  · rw [hnameSlice]
    simp only [Text.visible_append, hpublic, hqualifiedMarked.text_eq, visible_function,
      Text.visible_of_blanks hgap, Text.visible_of_blanks hnameGap, List.append_nil,
      List.nil_append]
    rfl

/-- The header of a function, up to its opening parenthesis, is put together from its marked
parts and the keyword. -/
theorem function_header (hm : function.Found mask m) :
    Shows mask m.span
      ((if m.hasPart .visibility then "public".toList else []) ++
        Text.visible ((m.parts .qualifier).flatMap (·.slice mask)) ++ "function".toList ++
        Text.visible ((Locate.part m .name).slice mask) ++ ['(']) := by
  obtain ⟨front, rest, d, rfl, -, hd, rfl⟩ := hm
  have hrest : rest = (front ++ rest).drop front.length := List.drop_left.symm
  obtain ⟨passed, visibleMarks, qualifiedMarks, name, hrecords, hvisible, hqualified, hne, hbegins,
    htext⟩ := records_function hrest hd
  have hmarks : d.marks = (Part.name, name) :: (qualifiedMarks ++ visibleMarks) := by
    rw [hrecords.marks_eq, List.append_nil]
  have hpart : Locate.part ⟨⟨front.length, d.offset⟩, d.marks⟩ .name = name := by
    simp [Locate.part, Match.part?, hmarks]
  have hvisibility : d.marks.filter (·.1 = Part.visibility) = visibleMarks := by
    rw [hmarks, List.filter_cons_of_neg (by simp), List.filter_append,
      filter_of_other hqualified (by decide), filter_of_labels hvisible, List.nil_append]
  have hqualifier : d.marks.filter (·.1 = Part.qualifier) = qualifiedMarks := by
    rw [hmarks, List.filter_cons_of_neg (by simp), List.filter_append,
      filter_of_other hvisible (by decide), filter_of_labels hqualified, List.append_nil]
  rw [hasPart_eq, flatMap_parts, hpart, hvisibility, hqualifier, ← htext]
  exact .of_leads hrest (by simp) hrecords.leads hne hbegins
    (notMem_of_leads (by decide) hd hrecords.leads)

/-! ## Resources -/

/-- What stands before the path of a resource. -/
def resourceLead : Pattern Part :=
  edge ++ qualifiers ["isolated"] ++ word "resource" ++ blanks ++ word "function" ++ blanks ++
    mark .method (some1 Text.isWord) ++ blanks

/-- The path of a resource. -/
def resourcePath : Pattern Part :=
  segment ++ many (one (· == '/') ++ segment)

theorem resource_eq :
    resource = resourceLead ++ mark .path resourcePath ++ spaces ++ one (· == '(') :=
  rfl

/-- The way to the path of a resource. -/
theorem records_resourceLead (hrest : c.rest = text.drop c.offset) (hd : d ∈ ends resourceLead c) :
    ∃ passed qualifiedMarks method,
      Cursor.Records passed ((Part.method, method) :: qualifiedMarks) c d ∧
      (∀ mark ∈ qualifiedMarks, mark.1 = Part.qualifier) ∧
      passed ≠ [] ∧ beginsVisibly passed = true ∧
      Text.visible passed = Text.visible (marksText text qualifiedMarks) ++ "resource".toList ++
        "function".toList ++ Text.visible (method.slice text) := by
  obtain ⟨named, hfront, hspaced⟩ := List.mem_flatMap.mp hd
  obtain ⟨lead, hfront, hnamed⟩ := List.mem_flatMap.mp hfront
  obtain ⟨keyword, hfront, hblanks⟩ := List.mem_flatMap.mp hfront
  obtain ⟨parted, hfront, hkeyword⟩ := List.mem_flatMap.mp hfront
  obtain ⟨resource, hfront, hparted⟩ := List.mem_flatMap.mp hfront
  obtain ⟨qualified, hfront, hresource⟩ := List.mem_flatMap.mp hfront
  obtain ⟨start, hstart, hqualified⟩ := List.mem_flatMap.mp hfront
  obtain ⟨-, rfl⟩ := eq_of_mem_ite hstart
  obtain ⟨qualifiedText, qualifiedMarks, hqualified, hqualifiedMarked⟩ :=
    records_qualifiers (by decide) (by decide) hrest hqualified
  obtain ⟨resourceGap, hresource, hresourceGap⟩ :=
    records_keyword (List.mem_flatMap.mpr ⟨resource, hresource, hparted⟩)
  obtain ⟨gap, hkeyword, hgap⟩ :=
    records_keyword (List.mem_flatMap.mpr ⟨keyword, hkeyword, hblanks⟩)
  obtain ⟨method, hmethod, -⟩ := records_of_mark rfl hnamed
  obtain ⟨methodGap, hmethodGap, hspells⟩ := records_of_unmarked rfl hspaced
  have hlead := (hqualified.trans hresource).trans hkeyword
  have hmethodSlice := (rest_of_leads (rest_of_leads hrest hlead.leads).1 hmethod.leads).2
  refine ⟨_, qualifiedMarks, _, (hlead.trans hmethod).trans hmethodGap, hqualifiedMarked.labels,
    by simp, ?_, ?_⟩
  · simp only [List.append_assoc]
    exact beginsVisibly_append hqualifiedMarked.begins rfl
  · rw [hmethodSlice]
    simp only [Text.visible_append, hqualifiedMarked.text_eq, visible_function, visible_resource,
      Text.visible_of_blanks hgap, Text.visible_of_blanks hresourceGap,
      Text.visible_of_blanks (spells_some1.mp hspells).2, List.append_nil]

theorem isBare_of_isSegmentChar {x : Char} (hx : isSegmentChar x = true) : IsBare x := by
  constructor
  · by_contra hblank
    have hall : ['.', '-', '$'].all (!Text.isBlank ·) = true := by decide
    rcases Bool.or_eq_true_iff.mp hx with hword | hmem
    · rw [Text.isWord_of_isBlank (by simpa using hblank)] at hword
      contradiction
    · have hnot := List.all_eq_true.mp hall x (by simpa using hmem)
      simp [hblank] at hnot
  · intro hmem
    have hall : quotes.all (!isSegmentChar ·) = true := by decide
    have hnot := List.all_eq_true.mp hall x hmem
    rw [hx] at hnot
    contradiction

theorem last_of_segment {s : List Char} (h : segment.Spells s) :
    ∃ front x, s = front ++ [x] ∧ IsBare x := by
  rcases h with h | ⟨_, _, rfl, -, x, hx, rfl⟩
  · obtain ⟨hne, hall⟩ := spells_some1.mp h
    obtain ⟨front, x, rfl⟩ := (List.eq_nil_or_concat s).resolve_left hne
    exact ⟨front, x, List.concat_eq_append, isBare_of_isSegmentChar (hall x (by simp))⟩
  · obtain rfl := beq_iff_eq.mp hx
    exact ⟨_, ']', rfl, by decide⟩

/-- A path ends with its last segment. -/
theorem last_of_path {s : List Char} (h : resourcePath.Spells s) :
    ∃ front x, s = front ++ [x] ∧ IsBare x := by
  obtain ⟨first, _, rfl, hfirst, rounds, rfl, hrounds⟩ := h
  have hlast := last_of_segment hfirst
  generalize first = s at hlast
  induction rounds generalizing s with
  | nil => rwa [List.flatten_nil, List.append_nil]
  | cons round rounds ih =>
      obtain ⟨⟨slash, segment, rfl, -, hsegment⟩, hmore⟩ := List.forall_mem_cons.mp hrounds
      obtain ⟨front, x, rfl, hx⟩ := last_of_segment hsegment
      rw [List.flatten_cons, ← List.append_assoc]
      exact ih hmore _ ⟨s ++ (slash ++ front), x, by simp, hx⟩

/-- The header of a resource is put together from its marked parts and the two keywords, up to
its path; behind the path there is white space up to the opening parenthesis. -/
theorem resource_header (hm : resource.Found mask m) :
    Shows mask ⟨m.span.start, (Locate.part m .path).start⟩
        (Text.visible ((m.parts .qualifier).flatMap (·.slice mask)) ++ "resource".toList ++
          "function".toList ++ Text.visible ((Locate.part m .method).slice mask)) ∧
      (Locate.part m .path).start < (Locate.part m .path).stop ∧
      ∃ x, Text.isBlank x = false ∧ mask[(Locate.part m .path).stop - 1]? = some x ∧
        Shows mask ⟨(Locate.part m .path).stop - 1, m.span.stop⟩ [x, '('] := by
  obtain ⟨front, rest, d, rfl, -, hd, rfl⟩ := hm
  have hrest : rest = (front ++ rest).drop front.length := List.drop_left.symm
  rw [resource_eq] at hd
  obtain ⟨spaced, hfront, hparen⟩ := List.mem_flatMap.mp hd
  obtain ⟨pathed, hfront, hspaced⟩ := List.mem_flatMap.mp hfront
  obtain ⟨lead, hlead, hpath⟩ := List.mem_flatMap.mp hfront
  obtain ⟨passed, qualifiedMarks, method, hrecords, hqualified, hne, hbegins, htext⟩ :=
    records_resourceLead hrest hlead
  obtain ⟨path, hpath, hspells⟩ := records_of_mark rfl hpath
  obtain ⟨gap, hparen, hgap⟩ := records_paren (List.mem_flatMap.mpr ⟨spaced, hspaced, hparen⟩)
  obtain ⟨before, x, rfl, hplain⟩ := last_of_path hspells
  have hmarks : d.marks = (Part.path, ⟨lead.offset, pathed.offset⟩) :: (Part.method, method) ::
      qualifiedMarks := by
    rw [hparen.marks_eq, hpath.marks_eq, hrecords.marks_eq]
    simp
  have hpathPart : Locate.part ⟨⟨front.length, d.offset⟩, d.marks⟩ .path =
      ⟨lead.offset, pathed.offset⟩ := by
    simp [Locate.part, Match.part?, hmarks]
  have hmethodPart : Locate.part ⟨⟨front.length, d.offset⟩, d.marks⟩ .method = method := by
    simp [Locate.part, Match.part?, hmarks]
  have hqualifier : d.marks.filter (·.1 = Part.qualifier) = qualifiedMarks := by
    rw [hmarks, List.filter_cons_of_neg (by simp), List.filter_cons_of_neg (by simp),
      filter_of_labels hqualified]
  rw [flatMap_parts, hpathPart, hmethodPart, hqualifier, ← htext]
  obtain ⟨hlast, hbehind⟩ := Shows.of_last (rest_of_leads hrest hrecords.leads).1 hpath.leads
    hparen.leads hplain hgap (List.forall_mem_singleton.mpr (by decide))
  refine ⟨.of_leads hrest (by simp) hrecords.leads hne hbegins
    (notMem_of_leads (by decide) hlead hrecords.leads), ?_, x, hplain.1, hlast, hbehind⟩
  show lead.offset < pathed.offset
  rw [hpath.leads.offset_eq, List.length_append, List.length_singleton]
  omega

/-! ## Marked parts in the text -/

/-- A marked part without spaces is the same in the text. -/
theorem slice_of_mem_marks {p : Pattern Part} {scope : List Char}
    (hscope : scope <+: SourceChunks.mask text) (hp : p.labelAvoids label [' '] = true)
    (hm : p.Found scope m) {span : Span} (hmark : (label, span) ∈ m.marks) :
    span.slice text = span.slice scope := by
  obtain ⟨behind, hbehind⟩ := hscope
  have hstop := ((Locate.bounds_of_found hm).2.2 _ hmark).2
  have hslice : span.slice (SourceChunks.mask text) = span.slice scope := by
    rw [← hbehind, Span.slice_append _ _ hstop]
  rw [← hslice]
  apply slice_eq_of_visible
  rw [hslice]
  exact fun hspace => notMem_of_mem_marks hp hm hmark ' ' hspace List.mem_cons_self

theorem slice_part {p : Pattern Part} {scope : List Char}
    (hscope : scope <+: SourceChunks.mask text) (hp : p.labelAvoids label [' '] = true)
    (hm : p.Found scope m) :
    (Locate.part m label).slice text = (Locate.part m label).slice scope := by
  rw [Locate.part]
  cases hpart : m.part? label with
  | none => simp [Span.slice]
  | some span => exact slice_of_mem_marks hscope hp hm (mem_marks_of_part? hpart)

theorem flatMap_slice_parts {p : Pattern Part} {scope : List Char}
    (hscope : scope <+: SourceChunks.mask text) (hp : p.labelAvoids label [' '] = true)
    (hm : p.Found scope m) :
    (m.parts label).flatMap (·.slice text) = (m.parts label).flatMap (·.slice scope) := by
  refine List.flatMap_congr fun span hspan => ?_
  obtain ⟨⟨other, span'⟩, hrow, rfl⟩ := List.mem_map.mp hspan
  obtain ⟨hmark, hlabel⟩ := List.mem_filter.mp (List.mem_reverse.mp hrow)
  obtain rfl : other = label := of_decide_eq_true hlabel
  exact slice_of_mem_marks hscope hp hm hmark

end Patterns

/-! ## Behind the parameters -/

/-- Behind the parameters there is white space up to the brace that opens the body, or up to the
word in front of a return type. -/
theorem gap_of_callableTail {offset : Nat} {rest : List Char} {found : CallableTail}
    (h : callableTail? offset rest = some found) :
    ∃ gap word more, rest = gap ++ (word ++ more) ∧ (∀ x ∈ gap, Text.isBlank x = true) ∧
      offset + (gap ++ word).length ≤ found.opening ∧
      ((word = [] ∧ found.returns = none ∧ found.opening = offset + (gap ++ word).length) ∨
        (word = "returns".toList ∧
          found.returns = some ⟨offset + (gap ++ word).length, found.opening⟩)) := by
  obtain ⟨gap, hrest, hgap⟩ := Text.exists_trimLeft rest
  have hlength := congrArg List.length hrest
  rw [List.length_append] at hlength
  have hplace : offset + (rest.length - (Text.trimLeft rest).length) = offset + gap.length := by
    omega
  rw [callableTail?] at h
  simp only [hplace] at h
  cases htype : behindReturns? (Text.trimLeft rest) with
  | some type =>
      simp only [htype] at h
      obtain ⟨opening, hopening, rfl⟩ := Option.map_eq_some_iff.mp h
      obtain ⟨inner, more, -, hle⟩ := exists_of_returnTypeEndFrom hopening
      obtain ⟨hafter, -⟩ := behindReturns_eq_some.mp htype
      have hword : "returns".length = "returns".toList.length := by decide
      have hstart : offset + gap.length + "returns".length =
          offset + (gap ++ "returns".toList).length := by
        rw [List.length_append, hword, Nat.add_assoc]
      rw [hstart] at hle
      refine ⟨gap, "returns".toList, type, by rw [← hafter]; exact hrest, hgap, ?_, .inr ⟨rfl, ?_⟩⟩
      · show _ ≤ opening
        omega
      · rw [hstart]
  | none =>
      simp only [htype, Option.ite_none_right_eq_some, Option.some.injEq] at h
      obtain ⟨-, rfl⟩ := h
      refine ⟨gap, [], Text.trimLeft rest, hrest, hgap, ?_, .inl ⟨rfl, rfl, ?_⟩⟩
      · rw [List.append_nil]
      · rw [List.append_nil]

/-- What a mask shows behind the parameters of a function, up to its return type or its body. -/
theorem parts_header {mask : List Char} {start : Nat} {parts : CallableParts}
    (h : callableParts mask start = .ok parts) :
    start ≤ parts.parameters.stop ∧ parts.parameters.start = start ∧
      ∃ place word, place ≤ parts.tail.opening ∧
        Shows mask ⟨parts.parameters.stop, place⟩ (')' :: word) ∧
        ((word = [] ∧ parts.tail.returns = none ∧ parts.tail.opening = place) ∨
          (word = "returns".toList ∧ parts.tail.returns = some ⟨place, parts.tail.opening⟩)) := by
  obtain ⟨behind, front, body, hbehind, htail, -, -, -, hparameters, -⟩ := exists_of_callableParts h
  have hclosing := Locate.closing_of_parts h
  have hlt := (closingFrom_bounds hbehind).1
  rw [hparameters] at hclosing ⊢
  obtain ⟨gap, word, more, hmore, hgap, hle, hcases⟩ := gap_of_callableTail htail
  -- From the parenthesis on, the mask goes on with white space and possibly a word.
  obtain ⟨hbound, hat⟩ := List.getElem?_eq_some_iff.mp hclosing
  have hsplit : mask = mask.take (behind - 1) ++ (')' :: (gap ++ word) ++ more) := by
    have hdrop := List.drop_eq_getElem_cons hbound
    rw [hat, Nat.sub_add_cancel (by omega), hmore] at hdrop
    rw [List.cons_append, List.append_assoc, ← hdrop, List.take_append_drop]
  have hfront : (mask.take (behind - 1)).length = behind - 1 := List.length_take_of_le hbound.le
  have hword : ∀ x ∈ word, IsBare x := by
    rcases hcases with ⟨rfl, -⟩ | ⟨rfl, -⟩
    · simp
    · exact List.all_iff_forall_prop.mp (by decide)
  have hshown := Shows.of_gap hsplit (by decide) hgap hword
  have hplace : behind - 1 + (')' :: (gap ++ word)).length = behind + (gap ++ word).length := by
    rw [List.length_cons]
    omega
  rw [hfront, hplace] at hshown
  refine ⟨?_, rfl, _, word, hle, hshown, ?_⟩
  · show start ≤ behind - 1
    omega
  · rcases hcases with ⟨hword, hreturns, hopening⟩ | ⟨hword, hreturns⟩
    · exact .inl ⟨hword, hreturns, hopening⟩
    · exact .inr ⟨hword, hreturns⟩

end SourceChunks
