import Mathlib
import SourceChunks.Proofs.Declaration.Members
import SourceChunks.Proofs.Declaration.Seam
import SourceChunks.Proofs.Pattern.Spelling
import SourceChunks.Proofs.Text.Words

/-!
# How values are declared

Variables and constants are written alike: some words, an equals sign, and a value up to the
next semicolon.  The words of a constant or a configurable variable hold a keyword, which is
followed by a name and possibly a type before it; those of a module variable are a few
qualifiers, a type and a name, and they begin a line.

* `Assigns`: a header, an equals sign and a value, by offsets.
* `Assigns.stop_eq`, `Assigns.equals_eq`: two of them that overlap share their semicolon, and
  their equals sign as well if neither begins in the value of the other.
* `KeywordHeader`, `keywordHeader_of_mem`: the words of a constant or configurable variable.
* `VariableHeader`, `variableHeader_of_mem`: the words of a module variable.
-/

namespace SourceChunks

/-! ## Slices -/

theorem Span.slice_of_split {text front middle rest : List Char} {i j : Nat}
    (h : text = front ++ (middle ++ rest)) (hi : i = front.length) (hj : j = i + middle.length) :
    (⟨i, j⟩ : Span).slice text = middle := by
  rw [h, hj, hi, Span.slice, List.drop_left, Nat.add_sub_cancel_left, List.take_left]

/-- The last character of the front of a text. -/
theorem getElem?_of_getLast? {front : List Char} {b : Char} (hb : front.getLast? = some b)
    (rest : List Char) : (front ++ rest)[front.length - 1]? = some b := by
  obtain ⟨before, rfl⟩ := List.getLast?_eq_some_iff.mp hb
  simp

theorem Span.slice_split {i j k : Nat} (hij : i ≤ j) (hjk : j ≤ k) (text : List Char) :
    (⟨i, k⟩ : Span).slice text = (⟨i, j⟩ : Span).slice text ++ (⟨j, k⟩ : Span).slice text := by
  have hdrop : text.drop j = (text.drop i).drop (j - i) := by
    rw [List.drop_drop, Nat.add_sub_cancel' hij]
  have hlength : k - i = j - i + (k - j) := by omega
  simp only [Span.slice]
  rw [hdrop, hlength, List.take_add]

theorem Span.slice_singleton {text : List Char} {i : Nat} {x : Char} (h : text[i]? = some x) :
    (⟨i, i + 1⟩ : Span).slice text = [x] := by
  obtain ⟨hlt, rfl⟩ := List.getElem?_eq_some_iff.mp h
  rw [Span.slice, List.drop_eq_getElem_cons hlt, Nat.add_sub_cancel_left, List.take_succ_cons,
    List.take_zero]

/-- What stands in a slice stands in the text. -/
theorem Span.mem_slice_iff {span : Span} {text : List Char} {x : Char} :
    x ∈ span.slice text ↔ ∃ i, span.start ≤ i ∧ i < span.stop ∧ text[i]? = some x := by
  simp only [Span.slice, List.mem_iff_getElem?, List.getElem?_take, List.getElem?_drop]
  constructor
  · rintro ⟨i, hi⟩
    split_ifs at hi with hlt
    exact ⟨span.start + i, Nat.le_add_right _ _, by omega, hi⟩
  · rintro ⟨i, hle, hlt, hi⟩
    refine ⟨i - span.start, ?_⟩
    rw [if_pos (by omega), Nat.add_sub_cancel' hle]
    exact hi

/-- White space parts the words in front of it from those behind it. -/
theorem words_slice {i j k : Nat} (hij : i < j) (hjk : j ≤ k) {text : List Char} {b : Char}
    (hb : text[j - 1]? = some b) (hblank : Text.isBlank b = true) :
    Text.words ((⟨i, k⟩ : Span).slice text) =
      Text.words ((⟨i, j⟩ : Span).slice text) ++ Text.words ((⟨j, k⟩ : Span).slice text) := by
  have hone := Span.slice_singleton hb
  rw [show j - 1 + 1 = j by omega] at hone
  have hfront : Text.words ((⟨i, j⟩ : Span).slice text) =
      Text.words ((⟨i, j - 1⟩ : Span).slice text) := by
    rw [Span.slice_split (show i ≤ j - 1 by omega) (by omega), hone,
      Text.words_append_blank hblank]
    exact List.append_nil _
  rw [Span.slice_split (show i ≤ j - 1 by omega) (show j - 1 ≤ k by omega),
    Span.slice_split (show j - 1 ≤ j by omega) hjk, hone, List.singleton_append,
    Text.words_append_blank hblank, hfront]

/-! ## Headers and values -/

/-- The characters that no header of a value holds. -/
def headerStops : List Char := ['=', ';', '(', ')', '{', '}']

/-- A span holds a header, an equals sign and a value, and ends with the semicolon behind it. -/
structure Assigns (mask : List Char) (span : Span) (equals : Nat) : Prop where
  start_le : span.start ≤ equals
  equals_lt : equals + 1 < span.stop
  equals_at : mask[equals]? = some '='
  semicolon_at : mask[span.stop - 1]? = some ';'
  header : ∀ i, span.start ≤ i → i < equals → ∀ x, mask[i]? = some x → x ∉ headerStops
  value : ∀ i, equals < i → i < span.stop - 1 → mask[i]? ≠ some ';'

namespace Assigns

variable {mask : List Char} {span span' : Span} {equals equals' : Nat}

theorem of_split {front header value rest : List Char} (hheader : ∀ x ∈ header, x ∉ headerStops)
    (hvalue : ';' ∉ value) (hmask : mask = front ++ (header ++ '=' :: (value ++ ';' :: rest))) :
    Assigns mask ⟨front.length, front.length + header.length + value.length + 2⟩
      (front.length + header.length) := by
  have hat : ∀ i, mask[front.length + i]? = (header ++ '=' :: (value ++ ';' :: rest))[i]? := by
    intro i
    rw [hmask, List.getElem?_append_right (by omega), Nat.add_sub_cancel_left]
  have hbehind : ∀ i, mask[front.length + (header.length + i)]? =
      ('=' :: (value ++ ';' :: rest))[i]? := by
    intro i
    rw [hat, List.getElem?_append_right (by omega), Nat.add_sub_cancel_left]
  constructor
  · exact Nat.le_add_right _ _
  · show front.length + header.length + 1 < front.length + header.length + value.length + 2
    omega
  · exact hbehind 0
  · have hlast := hbehind (value.length + 1)
    rw [List.getElem?_cons_succ, List.getElem?_append_right le_rfl, Nat.sub_self] at hlast
    have hoffset : front.length + header.length + value.length + 2 - 1 =
        front.length + (header.length + (value.length + 1)) := by omega
    show mask[front.length + header.length + value.length + 2 - 1]? = some ';'
    rw [hoffset, hlast]
    rfl
  · intro i (hle : front.length ≤ i) hlt x hx
    have hi := hat (i - front.length)
    rw [Nat.add_sub_cancel' hle, List.getElem?_append_left (by omega), hx] at hi
    exact hheader x (List.mem_of_getElem? hi.symm)
  · intro i hlt (hstop : i < front.length + header.length + value.length + 2 - 1) hi
    obtain ⟨j, rfl⟩ := Nat.exists_eq_add_of_lt hlt
    have hj := hbehind (j + 1)
    rw [List.getElem?_cons_succ, List.getElem?_append_left (by omega)] at hj
    rw [Nat.add_assoc, Nat.add_assoc, hj] at hi
    exact hvalue (List.mem_of_getElem? hi)

/-- The first semicolon behind the beginning ends the span. -/
theorem stop_le_of_semicolon (h : Assigns mask span equals) {i : Nat} (hle : span.start ≤ i)
    (hi : mask[i]? = some ';') : span.stop ≤ i + 1 := by
  by_contra hlt
  rcases lt_trichotomy i equals with hheader | rfl | hvalue
  · exact h.header i hle hheader ';' hi (by decide)
  · rw [h.equals_at] at hi
    exact absurd hi (by decide)
  · exact h.value i hvalue (by omega) hi

/-- Two values that overlap end with the same semicolon. -/
theorem stop_eq (h : Assigns mask span equals) (h' : Assigns mask span' equals')
    (hlt : span.start < span'.stop) (hlt' : span'.start < span.stop) : span.stop = span'.stop := by
  have hle := h.stop_le_of_semicolon (by omega) h'.semicolon_at
  have hle' := h'.stop_le_of_semicolon (by omega) h.semicolon_at
  have hpos := h.equals_lt
  have hpos' := h'.equals_lt
  omega

/-- The first equals sign behind the beginning ends the header. -/
theorem le_of_equals (h : Assigns mask span equals) {i : Nat} (hle : span.start ≤ i)
    (hi : mask[i]? = some '=') : equals ≤ i := by
  by_contra hlt
  exact h.header i hle (by omega) '=' hi (by decide)

/-- A value that begins in the header of another one has the same equals sign. -/
theorem equals_eq (h : Assigns mask span equals) (h' : Assigns mask span' equals')
    (hle : span.start ≤ span'.start) (hlt : span'.start ≤ equals) : equals' = equals := by
  have hstart := h'.start_le
  exact le_antisymm (h'.le_of_equals hlt h.equals_at) (h.le_of_equals (by omega) h'.equals_at)

/-- No parenthesis stands in a header. -/
theorem equals_lt_of_paren (h : Assigns mask span equals) {i : Nat} (hle : span.start ≤ i)
    (hi : mask[i]? = some ')') : equals < i := by
  by_contra hlt
  rcases Nat.lt_or_eq_of_le (Nat.le_of_not_lt hlt) with hlt | rfl
  · exact h.header i hle hlt ')' hi (by decide)
  · rw [h.equals_at] at hi
    exact absurd hi (by decide)

end Assigns

/-! ## Words of headers -/

/-- The words one of which every constant and configurable variable has. -/
def valueKeywords : List (List Char) :=
  ["configurable".toList, "final".toList, "const".toList]

/-- The words that may stand before the type of a module variable. -/
def variableQualifiers : List (List Char) :=
  ["public".toList, "isolated".toList, "listener".toList]

/-- A header has a keyword, and behind that a name and at most one word more. -/
def KeywordHeader (header : List Char) : Prop :=
  ∃ lead keyword types name, Text.words header = lead ++ keyword :: (types ++ [name]) ∧
    keyword ∈ valueKeywords ∧ types.length ≤ 1

/-- A type and a name behind qualifiers, or behind the end of one, are no header with a
keyword. -/
theorem not_keywordHeader {header type name : List Char} {qualifiers : List (List Char)}
    (hwords : Text.words header = qualifiers ++ [type, name])
    (hqualifiers : ∀ q ∈ qualifiers, ∃ v ∈ variableQualifiers, q <:+ v)
    (htype : type ∉ valueKeywords) : ¬ KeywordHeader header := by
  rintro ⟨lead, keyword, types, name', hwords', hkeyword, hlength⟩
  rw [hwords] at hwords'
  match types with
  | [] =>
      obtain ⟨-, htail⟩ := List.append_inj' hwords' rfl
      obtain rfl := (List.cons.inj htail).1
      exact htype hkeyword
  | [type'] =>
      rw [List.append_cons lead keyword] at hwords'
      obtain ⟨hfront, -⟩ := List.append_inj' hwords' rfl
      obtain ⟨v, hv, hsuffix⟩ := hqualifiers keyword (by simp [hfront])
      have hnone : ∀ keyword ∈ valueKeywords, ∀ v ∈ variableQualifiers, ¬ keyword <:+ v := by
        decide
      exact hnone keyword hkeyword v hv hsuffix
  | _ :: _ :: _ => simp at hlength

namespace Patterns

open Pattern

theorem isBlank_of_isTypeChar {x : Char} (hx : isTypeChar x = true) : Text.isBlank x = false := by
  by_contra hblank
  rw [isTypeChar_of_isBlank (by simpa using hblank)] at hx
  contradiction

theorem spells_initializer {s : List Char} (h : initializer.Spells s) :
    ∃ gap value, s = gap ++ '=' :: (value ++ [';']) ∧ (∀ x ∈ gap, Text.isBlank x = true) ∧
      ';' ∉ value := by
  obtain ⟨_, _, rfl, ⟨_, value, rfl, ⟨gap, _, rfl, hgap, x, hx, rfl⟩, hvalue⟩, y, hy, rfl⟩ := h
  obtain rfl := beq_iff_eq.mp hx
  obtain rfl := beq_iff_eq.mp hy
  refine ⟨gap, value, by simp, hgap, fun hmem => ?_⟩
  simpa using (spells_some1.mp hvalue).2 ';' hmem

/-- A header in front of an initializer. -/
theorem assigns_of_spells {p : Pattern Part} (hp : p.avoids headerStops = true)
    {mask front lead init rest : List Char} (hlead : p.Spells lead) (hinit : initializer.Spells init)
    (hmask : mask = front ++ (lead ++ (init ++ rest))) :
    ∃ gap, gap <+: init ∧ (∀ x ∈ gap, Text.isBlank x = true) ∧
      Assigns mask ⟨front.length, front.length + (lead ++ init).length⟩
        (front.length + (lead ++ gap).length) := by
  obtain ⟨gap, value, rfl, hgap, hvalue⟩ := spells_initializer hinit
  have hheader : ∀ x ∈ lead ++ gap, x ∉ headerStops := by
    have hstops : headerStops.all (!Text.isBlank ·) = true := by decide
    refine List.forall_mem_append.mpr ⟨?_, fun x hx hmem => ?_⟩
    · exact sort_of_spells (reads_of_avoids (fun x hx => hx) hp) hlead
    · have hblank := List.all_eq_true.mp hstops x hmem
      rw [hgap x hx] at hblank
      exact Bool.false_ne_true hblank
  have hsplit : mask = front ++ ((lead ++ gap) ++ '=' :: (value ++ ';' :: rest)) := by
    rw [hmask]
    simp
  have hlength : (lead ++ (gap ++ '=' :: (value ++ [';']))).length =
      (lead ++ gap).length + value.length + 2 := by
    simp only [List.length_append, List.length_cons, List.length_nil]
    omega
  refine ⟨gap, List.prefix_append _ _, hgap, ?_⟩
  rw [hlength, ← Nat.add_assoc, ← Nat.add_assoc]
  exact Assigns.of_split hheader hvalue hsplit

/-- A pattern before the initializer of a value describes its header. -/
theorem assigns_of_mem_ends {p : Pattern Part} (hp : p.avoids headerStops = true)
    {mask front : List Char} {c d : Cursor Part} (hmask : mask = front ++ c.rest)
    (hoffset : c.offset = front.length) (hd : d ∈ ends (p ++ initializer) c) :
    ∃ lead gap, p.Spells lead ∧ (∀ x ∈ gap, Text.isBlank x = true) ∧
      Assigns mask ⟨c.offset, d.offset⟩ (c.offset + (lead ++ gap).length) ∧
      (⟨c.offset, c.offset + (lead ++ gap).length⟩ : Span).slice mask = lead ++ gap := by
  obtain ⟨_, hlead, lead, init, rfl, hspells, hinit⟩ := spells_of_mem_ends hd
  have hsplit : mask = front ++ (lead ++ (init ++ d.rest)) := by
    rw [hmask, hlead.rest_eq, List.append_assoc]
  obtain ⟨gap, ⟨more, rfl⟩, hgap, hassigns⟩ := assigns_of_spells hp hspells hinit hsplit
  rw [hlead.offset_eq, hoffset]
  have hheader : mask = front ++ ((lead ++ gap) ++ (more ++ d.rest)) := by
    rw [hsplit]
    simp
  exact ⟨lead, gap, hspells, hgap, hassigns, Span.slice_of_split hheader rfl rfl⟩

/-! ## Constants and configurable variables -/

/-- A word in front of white space. -/
theorem words_append_of_blanks {word gap : List Char} (hword : Text.isUnbroken word = true)
    (hgap : blanks.Spells gap) (t : List Char) :
    Text.words (word ++ gap ++ t) = word :: Text.words t := by
  obtain ⟨hgap, hblank⟩ := spells_some1.mp hgap
  exact Text.words_word_append hword hgap hblank t

theorem isUnbroken_of_typeName {type : List Char} (h : typeName.Spells type) :
    Text.isUnbroken type = true := by
  obtain ⟨hne, hchars⟩ := spells_some1.mp h
  exact Text.isUnbroken_iff.mpr ⟨hne, fun x hx => isBlank_of_isTypeChar (hchars x hx)⟩

theorem words_of_visibility {s : List Char} (h : visibility.Spells s) :
    ∃ lead, ∀ t, Text.words (s ++ t) = lead ++ Text.words t := by
  rcases h with ⟨word, gap, rfl, hword, hgap⟩ | rfl
  · obtain rfl := spells_word.mp hword
    exact ⟨[_], words_append_of_blanks (by decide) hgap⟩
  · exact ⟨[], fun t => rfl⟩

theorem words_of_type {s : List Char} (h : (typeName ++ blanks).Spells s) :
    ∃ type, ∀ t, Text.words (s ++ t) = type :: Text.words t := by
  obtain ⟨type, gap, rfl, htype, hgap⟩ := h
  exact ⟨type, words_append_of_blanks (isUnbroken_of_typeName htype) hgap⟩

theorem words_of_declaredName {name gap : List Char} (h : declaredName.Spells name)
    (hgap : ∀ x ∈ gap, Text.isBlank x = true) : Text.words (name ++ gap) = [name] := by
  obtain ⟨hne, hchars⟩ := spells_some1.mp h
  exact Text.words_word_append_blanks
    (Text.isUnbroken_iff.mpr ⟨hne, fun x hx => Text.isBlank_of_isWord (hchars x hx)⟩) hgap

/-- A header whose words come one after another. -/
theorem keywordHeader_of_spells {before word space type name gap : List Char}
    (hbefore : visibility.Spells before) (hword : word ∈ valueKeywords)
    (hspace : blanks.Spells space) (htype : (maybe (typeName ++ blanks)).Spells type)
    (hname : declaredName.Spells name) (hgap : ∀ x ∈ gap, Text.isBlank x = true) :
    KeywordHeader (before ++ (word ++ space ++ (type ++ (name ++ gap)))) := by
  have hkeywords : ∀ word ∈ valueKeywords, Text.isUnbroken word = true := by decide
  obtain ⟨lead, hlead⟩ := words_of_visibility hbefore
  have htypes : ∃ types, types.length ≤ 1 ∧
      ∀ t, Text.words (type ++ t) = types ++ Text.words t := by
    rcases htype with htype | rfl
    · obtain ⟨type', htype'⟩ := words_of_type htype
      exact ⟨[type'], le_rfl, htype'⟩
    · exact ⟨[], Nat.zero_le _, fun t => rfl⟩
  obtain ⟨types, hlength, htypes⟩ := htypes
  refine ⟨lead, word, types, name, ?_, hword, hlength⟩
  rw [hlead, words_append_of_blanks (hkeywords word hword) hspace, htypes,
    words_of_declaredName hname hgap]

end Patterns

namespace Locate

open Pattern Patterns

variable {mask : List Char} {d : Declaration Span}

/-- A configurable variable has a header with a keyword. -/
theorem keywordHeader_of_configurable (hd : d ∈ declarations (configurables mask)) :
    ∃ equals, Assigns mask d.span equals ∧
      KeywordHeader ((⟨d.span.start, equals⟩ : Span).slice mask) := by
  obtain ⟨m, hm, rfl⟩ := exists_match_of_mem hd
  obtain ⟨front, rest, e, rfl, -, he, rfl⟩ := found_of_mem_topLevelMatches hm
  obtain ⟨lead, gap, hspells, hgap, hassigns, hslice⟩ :=
    assigns_of_mem_ends (by decide) rfl rfl he
  refine ⟨_, hassigns, ?_⟩
  rw [hslice]
  obtain ⟨_, name, rfl, ⟨_, space', rfl, ⟨_, type, rfl, ⟨_, space, rfl, ⟨_, word, rfl,
    ⟨_, before, rfl, rfl, hbefore⟩, hword⟩, hspace⟩, htype⟩, hspace'⟩, hname⟩ := hspells
  have hkeyword : word ∈ valueKeywords := by rw [spells_word.mp hword]; decide
  have hheader := keywordHeader_of_spells hbefore hkeyword hspace
    (.inl ⟨type, space', rfl, htype, hspace'⟩) hname hgap
  simpa using hheader

/-- A constant has a header with a keyword. -/
theorem keywordHeader_of_constant (hd : d ∈ declarations (constants mask)) :
    ∃ equals, Assigns mask d.span equals ∧
      KeywordHeader ((⟨d.span.start, equals⟩ : Span).slice mask) := by
  obtain ⟨m, hm, rfl⟩ := exists_match_of_mem hd
  obtain ⟨front, rest, e, rfl, -, he, rfl⟩ := found_of_mem_topLevelMatches hm
  obtain ⟨lead, gap, hspells, hgap, hassigns, hslice⟩ :=
    assigns_of_mem_ends (by decide) rfl rfl he
  refine ⟨_, hassigns, ?_⟩
  rw [hslice]
  obtain ⟨_, name, rfl, ⟨_, type, rfl, ⟨_, space, rfl, ⟨_, word, rfl,
    ⟨_, before, rfl, rfl, hbefore⟩, hword⟩, hspace⟩, htype⟩, hname⟩ := hspells
  have hkeyword : word ∈ valueKeywords := by
    obtain ⟨text, htext, rfl⟩ := spells_anyOf_words ["final", "const"] (by simp) hword
    rcases List.mem_pair.mp htext with rfl | rfl <;> decide
  have hheader := keywordHeader_of_spells hbefore hkeyword hspace htype hname hgap
  simpa using hheader

/-! ## Module variables -/

/-- The header of a module variable whose type has a span: its statement begins behind the
white space at the beginning of a line, and then come qualifiers, the type and a name. -/
structure VariableHeader (mask : List Char) (span type : Span) (equals : Nat) : Prop where
  assigns : Assigns mask span equals
  line : ∃ line ≤ span.start, (line = 0 ∨ mask[line - 1]? = some '\n') ∧
    ∀ i, line ≤ i → i < span.start → ∀ x, mask[i]? = some x → Text.isBlank x = true
  start_le : span.start ≤ type.start
  stop_le : type.stop ≤ equals
  qualifiers : ∀ q ∈ Text.words ((⟨span.start, type.start⟩ : Span).slice mask),
    q ∈ variableQualifiers
  parted : span.start < type.start → ∃ b, mask[type.start - 1]? = some b ∧ Text.isBlank b = true
  typed : ∃ name, Text.words ((⟨type.start, equals⟩ : Span).slice mask) = [type.slice mask, name]
  named : ∃ name, Text.words ((⟨type.stop, equals⟩ : Span).slice mask) = [name]

/-- From a place before the type on, a header has what is left of the qualifiers, and then the
type and the name. -/
theorem VariableHeader.words_from {span type : Span} {equals i : Nat}
    (h : VariableHeader mask span type equals) (hle : span.start ≤ i) (hi : i ≤ type.start) :
    ∃ qualifiers name, Text.words ((⟨i, equals⟩ : Span).slice mask) =
        qualifiers ++ [type.slice mask, name] ∧
      ∀ q ∈ qualifiers, ∃ v ∈ variableQualifiers, q <:+ v := by
  obtain ⟨name, hname⟩ := h.typed
  rcases Nat.lt_or_eq_of_le hi with hlt | rfl
  · obtain ⟨b, hb, hblank⟩ := h.parted (by omega)
    have hequals : type.start ≤ equals := by
      by_contra hgt
      have hempty : (⟨type.start, equals⟩ : Span).slice mask = [] := by
        rw [Span.slice, Nat.sub_eq_zero_of_le (by simp only; omega), List.take_zero]
      rw [hempty] at hname
      contradiction
    refine ⟨Text.words ((⟨i, type.start⟩ : Span).slice mask), name, ?_, fun q hq => ?_⟩
    · rw [words_slice hlt hequals hb hblank, hname]
    · have hsuffix : (⟨i, type.start⟩ : Span).slice mask <:+
          (⟨span.start, type.start⟩ : Span).slice mask := by
        rw [Span.slice_split hle hi]
        exact List.suffix_append _ _
      obtain ⟨v, hv, hqv⟩ := (Text.areLast_words hsuffix).exists_of_mem q hq
      exact ⟨v, h.qualifiers v hv, hqv⟩
  · exact ⟨[], name, hname, by simp⟩

/-- Qualifiers in front of a type are words of their own. -/
theorem words_of_qualifiers {rounds : List (List Char)}
    (h : ∀ round ∈ rounds,
      (anyOf [word "public", word "isolated", word "listener"] ++ blanks : Pattern Part).Spells
        round) :
    (∀ q ∈ Text.words rounds.flatten, q ∈ variableQualifiers) ∧
      ∀ x ∈ rounds.flatten.getLast?, Text.isBlank x = true := by
  induction rounds with
  | nil => exact ⟨by simp [Text.words, Text.wordsFrom], by simp⟩
  | cons round rounds ih =>
      obtain ⟨hround, hrounds⟩ := List.forall_mem_cons.mp h
      obtain ⟨hwords, hlast⟩ := ih hrounds
      obtain ⟨q, gap, rfl, hq, hgap⟩ := hround
      obtain ⟨text, htext, rfl⟩ :=
        spells_anyOf_words ["public", "isolated", "listener"] (by simp) hq
      have hunbroken : ∀ text ∈ ["public", "isolated", "listener"],
          Text.isUnbroken text.toList = true ∧ text.toList ∈ variableQualifiers := by decide
      obtain ⟨hword, hmem⟩ := hunbroken text htext
      obtain ⟨hne, hblank⟩ := spells_some1.mp hgap
      rw [List.flatten_cons]
      constructor
      · rw [words_append_of_blanks hword hgap]
        exact List.forall_mem_cons.mpr ⟨hmem, hwords⟩
      · intro x hx
        rw [List.getLast?_append, List.getLast?_append, List.getLast?_eq_some_getLast hne] at hx
        cases hrest : rounds.flatten.getLast? with
        | some y =>
            rw [hrest] at hx hlast
            exact hlast x hx
        | none =>
            rw [hrest] at hx
            obtain rfl := Option.some.inj hx
            exact hblank _ (List.getLast_mem hne)

/-- A header whose words come one after another. -/
theorem VariableHeader.of_spells {front indent quals type gap name init rest : List Char}
    (hline : front.getLast?.all (· == '\n') = true)
    (hindent : ∀ x ∈ indent, Text.isBlank x = true)
    (hquals : (many (anyOf [word "public", word "isolated", word "listener"] ++ blanks) :
      Pattern Part).Spells quals)
    (htype : typeName.Spells type) (hgap : blanks.Spells gap) (hname : declaredName.Spells name)
    (hinit : initializer.Spells init) {start typeStart : Nat}
    (hstart : start = front.length + indent.length) (htypeStart : typeStart = start + quals.length)
    (hmask : mask = front ++ (indent ++ (quals ++ (type ++ (gap ++ (name ++ (init ++ rest))))))) :
    ∃ equals, VariableHeader mask ⟨start, start + (quals ++ type ++ gap ++ name ++ init).length⟩
      ⟨typeStart, typeStart + type.length⟩ equals := by
  have hlead : (many (anyOf [word "public", word "isolated", word "listener"] ++ blanks) ++
      typeName ++ blanks ++ declaredName : Pattern Part).Spells (quals ++ type ++ gap ++ name) :=
    ⟨_, name, rfl, ⟨_, gap, rfl, ⟨quals, type, rfl, hquals, htype⟩, hgap⟩, hname⟩
  have hsplit : mask = (front ++ indent) ++ ((quals ++ type ++ gap ++ name) ++ (init ++ rest)) := by
    simp [hmask]
  obtain ⟨gap', ⟨more, rfl⟩, hgap', hassigns⟩ := assigns_of_spells (by decide) hlead hinit hsplit
  rw [List.length_append, ← hstart] at hassigns
  -- The slices of the mask from one piece of the header to another one.
  have hindent' : (⟨front.length, start⟩ : Span).slice mask = indent :=
    Span.slice_of_split hmask rfl hstart
  have hbehind : mask = (front ++ indent) ++ (quals ++ (type ++ (gap ++ (name ++
      (gap' ++ more ++ rest))))) := by simp [hmask]
  have hquals' : (⟨start, typeStart⟩ : Span).slice mask = quals :=
    Span.slice_of_split hbehind (by rw [hstart, List.length_append]) htypeStart
  have hlead' : (front ++ indent ++ quals).length = typeStart := by
    simp only [List.length_append]
    omega
  have htypeSplit : mask = (front ++ indent ++ quals) ++ (type ++ (gap ++ (name ++
      (gap' ++ more ++ rest)))) := by simp [hmask]
  have htype' : (⟨typeStart, typeStart + type.length⟩ : Span).slice mask = type :=
    Span.slice_of_split htypeSplit hlead'.symm rfl
  have htypedSplit : mask = (front ++ indent ++ quals) ++ ((type ++ gap ++ (name ++ gap')) ++
      (more ++ rest)) := by simp [hmask]
  have htyped : (⟨typeStart, start + (quals ++ type ++ gap ++ name ++ gap').length⟩ : Span).slice
      mask = type ++ gap ++ (name ++ gap') := by
    refine Span.slice_of_split htypedSplit hlead'.symm ?_
    simp only [List.length_append]
    omega
  have hnamedSplit : mask = (front ++ indent ++ quals ++ type) ++ ((gap ++ (name ++ gap')) ++
      (more ++ rest)) := by simp [hmask]
  have hnamed : (⟨typeStart + type.length,
      start + (quals ++ type ++ gap ++ name ++ gap').length⟩ : Span).slice mask =
        gap ++ (name ++ gap') := by
    refine Span.slice_of_split hnamedSplit (by rw [List.length_append, hlead']) ?_
    simp only [List.length_append]
    omega
  obtain ⟨rounds, rfl, hrounds⟩ := hquals
  obtain ⟨hqualifiers, hlast⟩ := words_of_qualifiers hrounds
  refine ⟨_, hassigns, ⟨front.length, by simp only; omega, ?_, fun i hle hlt x hx => ?_⟩,
    by simp only; omega, by simp only [List.length_append]; omega, ?_, fun hlt => ?_, ⟨name, ?_⟩,
    ⟨name, ?_⟩⟩
  · cases hfront : front.getLast? with
    | none => exact .inl (by rw [List.getLast?_eq_none_iff.mp hfront, List.length_nil])
    | some x =>
        rw [hfront] at hline
        obtain rfl := beq_iff_eq.mp hline
        rw [hmask]
        exact .inr (getElem?_of_getLast? hfront _)
  · refine hindent x ?_
    rw [← hindent']
    exact Span.mem_slice_iff.mpr ⟨i, hle, hlt, hx⟩
  · rw [hquals']
    exact hqualifiers
  · have hne : rounds.flatten ≠ [] := by
      intro hnil
      rw [hnil, List.length_nil] at htypeStart
      simp only at hlt
      omega
    have hb := List.getLast?_eq_some_getLast hne
    refine ⟨_, ?_, hlast _ hb⟩
    show mask[typeStart - 1]? = _
    rw [← hlead', htypeSplit]
    exact getElem?_of_getLast? (by rw [List.getLast?_append, hb]; rfl) _
  · rw [htyped, htype', words_append_of_blanks (isUnbroken_of_typeName htype) hgap,
      words_of_declaredName hname hgap']
  · rw [hnamed, Text.words_blanks_append (spells_some1.mp hgap).2,
      words_of_declaredName hname hgap']

/-- The statement of a match has a header of its own. -/
theorem variableHeader_of_found {m : Match Part} (hm : moduleVariable.Found mask m) :
    ∃ equals, VariableHeader mask (part m .statement) (part m .type) equals := by
  obtain ⟨front, rest, e, rfl, -, he, rfl⟩ := hm
  obtain ⟨f, hf, he⟩ := List.mem_flatMap.mp he
  obtain ⟨g, hg, rfl⟩ := List.mem_map.mp he
  obtain ⟨c, hc, hf⟩ := List.mem_flatMap.mp hf
  obtain ⟨hline, rfl⟩ := eq_of_mem_ite hc
  obtain ⟨indent, hindent, hspaces⟩ := spells_of_mem_ends hf
  -- The places behind the name, the white space before it, the type and the qualifiers.
  obtain ⟨w, hw, hinit⟩ := List.mem_flatMap.mp hg
  obtain ⟨v, hv, hname⟩ := List.mem_flatMap.mp hw
  obtain ⟨t, ht, hgap⟩ := List.mem_flatMap.mp hv
  obtain ⟨s, hs, htype⟩ := List.mem_flatMap.mp ht
  have htypeMark : g.marks.find? (·.1 = .type) = some (.type, ⟨s.offset, t.offset⟩) := by
    rw [find_mark_of_mem_ends (by decide) hinit, find_mark_of_mem_ends (by decide) hname,
      find_mark_of_mem_ends (by decide) hgap]
    obtain ⟨u, -, rfl⟩ := List.mem_map.mp htype
    rfl
  obtain ⟨init, hleadInit, hinit⟩ := spells_of_mem_ends hinit
  obtain ⟨name, hleadName, hname⟩ := spells_of_mem_ends hname
  obtain ⟨gap, hleadGap, hgap⟩ := spells_of_mem_ends hgap
  obtain ⟨type, hleadType, htype⟩ := spells_of_mem_ends htype
  obtain ⟨quals, hleadQuals, hquals⟩ := spells_of_mem_ends hs
  have hstatement := (((hleadQuals.trans hleadType).trans hleadGap).trans hleadName).trans hleadInit
  have hindent' : ∀ x ∈ indent, Text.isBlank x = true := by
    intro x hx
    have hspace := hspaces x hx
    rw [Bool.or_eq_true, beq_iff_eq, beq_iff_eq] at hspace
    rcases hspace with rfl | rfl <;> decide
  have hmask : front ++ rest = front ++ (indent ++ (quals ++ (type ++ (gap ++ (name ++
      (init ++ g.rest)))))) := by
    have hrest : rest = indent ++ f.rest := hindent.rest_eq
    rw [hrest, hstatement.rest_eq]
    simp
  obtain ⟨equals, hheader⟩ := VariableHeader.of_spells hline hindent' hquals htype hgap hname hinit
    hindent.offset_eq hleadQuals.offset_eq hmask
  rw [← hstatement.offset_eq, ← hleadType.offset_eq] at hheader
  have htypePart : ∀ span, part ⟨span, (g.withMark .statement f.offset).marks⟩ .type =
      ⟨s.offset, t.offset⟩ := by
    intro span
    rw [part, Match.part?, Cursor.withMark, List.find?_cons_of_neg (by simp), htypeMark]
    rfl
  rw [htypePart]
  exact ⟨equals, hheader⟩

/-- A module variable has a header of its own, and its type is not reserved. -/
theorem variableHeader_of_mem (hd : d ∈ declarations (moduleVariables mask)) :
    ∃ type name equals, d.shape = .moduleVariable type name ∧
      VariableHeader mask d.span type equals ∧ type.slice mask ∉ valueKeywords := by
  obtain ⟨m, hm, hsome⟩ := List.mem_filterMap.mp (mem_declarations.mp hd)
  simp only [Option.ite_none_left_eq_some, Option.some.injEq, Outcome.declared.injEq] at hsome
  obtain ⟨hreserved, -, rfl⟩ := hsome
  obtain ⟨equals, hheader⟩ := variableHeader_of_found (found_of_mem_allMatches hm)
  refine ⟨_, _, equals, rfl, hheader, fun hmem => hreserved ?_⟩
  have hall : ∀ keyword ∈ valueKeywords,
      reservedTypeWords.contains (String.ofList keyword) = true := by
    decide
  exact hall _ hmem

end Locate

end SourceChunks
