import Mathlib
import SourceChunks.Declaration.Names
import SourceChunks.Proofs.Declaration.FunctionLayout
import SourceChunks.Proofs.Declaration.Members
import SourceChunks.Proofs.Declaration.Outlined
import SourceChunks.Proofs.Pattern.Best
import SourceChunks.Proofs.Source.Interior
import SourceChunks.Proofs.Source.Matching

/-!
# Texts with a service

A mask may hold a service with a path and a listener between any two other texts, as long as what
is in front of it has balanced braces and ends like a declaration.  Its header is found whatever
was found before, since no header goes beyond a semicolon or a brace.  Behind the header, the body
opens with the first brace outside the parentheses and square brackets of the listener.

* `ServiceLayout`: what such a text consists of, and where its parts stand.
* `IsStripped`: a text without some characters at its two ends.
* `Patterns.exists_end_service`: the header is found where it begins.
* `ServiceLayout.stop_le_of_found`: no header from further ahead goes beyond that place.
* `ServiceLayout.mem_services_text`: the service is one of those of the text.
* `Declaration.TellsOfService`, `found_of_serviceLayout`: what is read of the service.
-/

namespace SourceChunks

/-! ## The text -/

/-- What a text consists of that has a service in it, with a path and a listener.  The braces of the
listener need not be balanced, since those in parentheses and square brackets do not count. -/
structure ServiceLayout where
  /-- What stands before the declaration. -/
  front : List Char
  /-- The white space behind the keyword. -/
  gap : List Char
  /-- The path behind its first slash. -/
  path : List Char
  /-- The white space behind the path. -/
  pathGap : Separator
  /-- What stands between the word `on` and the body. -/
  listener : List Char
  /-- What stands between the braces. -/
  body : List Char
  /-- What stands behind the declaration. -/
  rest : List Char
  front_balanced : Balanced '{' '}' front
  front_last : ∀ x ∈ (Text.trimRight front).getLast?, x = ';' ∨ x = '}'
  gap_blank : Text.allBlank gap = true
  path_chars : ∀ x ∈ path, Patterns.isServicePathChar x = true
  listener_apart : listener.head?.any Text.isBlank = true
  listener_visible : Text.allBlank listener = false
  listener_sheltered : Sheltered 0 listener
  body_balanced : Balanced '{' '}' body

namespace ServiceLayout

variable (layout : ServiceLayout)

/-- What stands between the path and the listener. -/
def behindPath : List Char :=
  layout.pathGap.text ++ "on".toList

/-- The header, up to the word before the listener. -/
def header : List Char :=
  "service".toList ++ (layout.gap ++ ('/' :: layout.path ++ layout.behindPath))

/-- The listener, the body, and what stands behind them. -/
def behind : List Char :=
  layout.listener ++ '{' :: (layout.body ++ '}' :: layout.rest)

/-- The whole text. -/
def text : List Char :=
  layout.front ++ (layout.header ++ layout.behind)

/-- Where the keyword stands. -/
def keyword : Nat :=
  layout.front.length

/-- Where the path stands. -/
def pathSpan : Span :=
  ⟨layout.keyword + "service".length + layout.gap.length,
    layout.keyword + "service".length + layout.gap.length + ('/' :: layout.path).length⟩

/-- Where the listener stands. -/
def listenerSpan : Span :=
  ⟨layout.keyword + layout.header.length,
    layout.keyword + layout.header.length + layout.listener.length⟩

/-- Where the brace stands that opens the body. -/
def opening : Nat :=
  layout.listenerSpan.stop

/-- Where what is between the braces stands. -/
def bodySpan : Span :=
  ⟨layout.opening + 1, layout.opening + 1 + layout.body.length⟩

/-- Where the declaration stands. -/
def span : Span :=
  ⟨layout.keyword, layout.bodySpan.stop + 1⟩

/-! ## Where the parts stand -/

theorem length_header : layout.header.length = "service".length + layout.gap.length +
    ('/' :: layout.path).length + layout.behindPath.length := by
  have hkeyword : "service".toList.length = "service".length := by decide
  unfold header
  rw [← hkeyword]
  generalize "service".toList = keyword
  simp only [List.length_append, Nat.add_assoc]

@[simp] theorem drop_header : layout.text.drop layout.listenerSpan.start = layout.behind := by
  rw [text, ← List.append_assoc]
  exact List.drop_left' List.length_append

theorem drop_body : layout.text.drop layout.bodySpan.start =
    layout.body ++ '}' :: layout.rest := by
  have hstart : layout.bodySpan.start =
      layout.listenerSpan.start + (layout.listener ++ ['{']).length := by
    rw [List.length_append, ← Nat.add_assoc]
    rfl
  have hsplit : layout.behind =
      layout.listener ++ ['{'] ++ (layout.body ++ '}' :: layout.rest) := by
    simp [behind]
  rw [hstart, ← List.drop_drop, drop_header, hsplit, List.drop_left]

@[simp] theorem slice_path : layout.pathSpan.slice layout.text = '/' :: layout.path := by
  have hkeyword : "service".toList.length = "service".length := by decide
  have hstart : layout.pathSpan.start =
      (layout.front ++ "service".toList ++ layout.gap).length := by
    simp only [pathSpan, keyword, List.length_append, hkeyword]
  have hsplit : layout.text = layout.front ++ "service".toList ++ layout.gap ++
      ('/' :: layout.path ++ (layout.behindPath ++ layout.behind)) := by
    unfold text header
    generalize "service".toList = keyword
    simp only [List.append_assoc]
  have hdrop : layout.text.drop layout.pathSpan.start =
      '/' :: layout.path ++ (layout.behindPath ++ layout.behind) := by
    rw [hstart, hsplit, List.drop_left]
  exact Span.slice_of_drop hdrop

@[simp] theorem slice_listener : layout.listenerSpan.slice layout.text = layout.listener :=
  Span.slice_of_drop layout.drop_header

@[simp] theorem slice_body : layout.bodySpan.slice layout.text = layout.body :=
  Span.slice_of_drop layout.drop_body

end ServiceLayout

/-! ## Stripped texts -/

/-- A text is what is left of another one without the characters of a class at its two ends. -/
structure IsStripped (drop : Char → Bool) (s inner : List Char) : Prop where
  around : ∃ front behind, s = front ++ inner ++ behind ∧ (∀ x ∈ front, drop x = true) ∧
    ∀ x ∈ behind, drop x = true
  first : ∀ x ∈ inner.head?, drop x = false
  last : ∀ x ∈ inner.getLast?, drop x = false

section

variable {drop : Char → Bool} {s inner : List Char}

/-- What is dropped ends at the first character that is not of the class. -/
theorem dropWhile_append_eq {front rest : List Char} (hfront : ∀ x ∈ front, drop x = true)
    (hrest : ∀ x ∈ rest.head?, drop x = false) : (front ++ rest).dropWhile drop = rest := by
  rw [List.dropWhile_append_of_pos hfront]
  cases rest with
  | nil => rfl
  | cons x rest => exact List.dropWhile_cons_of_neg (by simp [hrest x rfl])

theorem head?_dropWhile_of_mem (drop : Char → Bool) (s : List Char) :
    ∀ x ∈ (s.dropWhile drop).head?, drop x = false := by
  intro x hx
  have hnot := List.head?_dropWhile_not drop s
  rwa [hx] at hnot

theorem isStripped_stripChars (drop : Char → Bool) (s : List Char) :
    IsStripped drop s (stripChars drop s) := by
  have hleft : s = s.takeWhile drop ++ s.dropWhile drop := List.takeWhile_append_dropWhile.symm
  have hright : s.dropWhile drop =
      stripChars drop s ++ ((s.dropWhile drop).reverse.takeWhile drop).reverse := by
    rw [stripChars, ← List.reverse_append, List.takeWhile_append_dropWhile, List.reverse_reverse]
  have haround : s = s.takeWhile drop ++ stripChars drop s ++
      ((s.dropWhile drop).reverse.takeWhile drop).reverse := by
    rw [List.append_assoc, ← hright, ← hleft]
  refine ⟨⟨_, _, haround, fun x hx => List.mem_takeWhile_imp hx,
    fun x hx => List.mem_takeWhile_imp (List.mem_reverse.mp hx)⟩, fun x hx => ?_, fun x hx => ?_⟩
  · refine head?_dropWhile_of_mem drop s x ?_
    rw [hright]
    exact Pattern.head?_append_of_head? hx _
  · rw [stripChars, List.getLast?_reverse] at hx
    exact head?_dropWhile_of_mem drop _ x hx

/-- There is only one such text. -/
theorem IsStripped.stripChars_eq (h : IsStripped drop s inner) : stripChars drop s = inner := by
  obtain ⟨⟨front, behind, rfl, hfront, hbehind⟩, hfirst, hlast⟩ := h
  have hreverse : ∀ x ∈ behind.reverse, drop x = true :=
    fun x hx => hbehind x (List.mem_reverse.mp hx)
  have hlast' : ∀ x ∈ inner.reverse.head?, drop x = false := by rwa [List.head?_reverse]
  rw [stripChars, List.append_assoc]
  cases inner with
  | nil =>
      rw [List.nil_append, List.dropWhile_append_of_pos hfront,
        List.dropWhile_eq_nil_iff.mpr hbehind]
      rfl
  | cons x inner =>
      have hfirst' : ∀ y ∈ (x :: inner ++ behind).head?, drop y = false := hfirst
      rw [dropWhile_append_eq hfront hfirst', List.reverse_append,
        dropWhile_append_eq hreverse hlast', List.reverse_reverse]

end

/-! ## The header -/

namespace Patterns

open Pattern

variable {rest : List Char}

/-- Behind a word and before anything else there is an edge. -/
theorem head?_edge {c : Cursor Part} (hbefore : ∃ x, c.before = some x ∧ Text.isWord x = true)
    (hrest : ∀ x ∈ c.rest.head?, Text.isWord x = false) :
    (ends (edge : Pattern Part) c).head? = some c := by
  obtain ⟨x, hx, hword⟩ := hbefore
  have hnone : c.rest.head?.any Text.isWord = false := by
    cases hhead : c.rest.head? with
    | none => rfl
    | some y => exact hrest y hhead
  rw [ends, Cursor.atEdge, hx, hnone, Option.any_some, hword]
  rfl

/-- What ends with a word also takes the edge behind it. -/
theorem takes_edge {p : Pattern Part} {s : List Char} (hp : p.Takes s rest)
    (hword : ∀ c d, d ∈ ends p c → ∃ x, d.before = some x ∧ Text.isWord x = true)
    (hrest : ∀ x ∈ rest.head?, Text.isWord x = false) : (p ++ edge).Takes s rest := by
  intro c hc
  obtain ⟨d, hd, hdMem, hdRest, -⟩ := hp.exists_end hc
  rw [← hdRest] at hrest
  exact ⟨d, head?_flatMap_of_head? hd (head?_edge (hword c d hdMem) hrest), hdRest⟩

/-- Behind white space, a pattern that begins with a word is refused where no word follows. -/
theorem refuses_blanks {p : Pattern Part}
    (hp : ∀ s : List Char, (∀ x ∈ s.head?, Text.isWord x = false) → p.Refuses s) {gap : List Char}
    (hgap : Text.allBlank gap = true) {x : Char} (hword : Text.isWord x = false)
    (hblank : Text.isBlank x = false) (more : List Char) :
    (blanks ++ p).Refuses (gap ++ x :: more) := by
  intro c hc
  refine List.flatMap_eq_nil_iff.mpr fun d hd => hp d.rest ?_ d rfl
  -- What is passed over is white space, so that it is part of the gap.
  have hreads : blanks.Reads fun y => Text.isBlank y = true := ⟨fun y hy => hy, fun y hy => hy⟩
  obtain ⟨passed, hlead, hpassed⟩ := passes_of_mem_ends hreads hd
  have hsplit : gap ++ x :: more = passed ++ d.rest := hc ▸ hlead.rest_eq
  obtain ⟨gap', rfl, hrest⟩ : ∃ gap', gap = passed ++ gap' ∧ d.rest = gap' ++ x :: more := by
    rcases List.append_eq_append_iff.mp hsplit with ⟨more', rfl, hmore⟩ | ⟨gap', rfl, hrest⟩
    · cases more' with
      | nil => exact ⟨[], by simp, hmore.symm⟩
      | cons y more' =>
          obtain ⟨rfl, -⟩ := List.cons_eq_cons.mp hmore
          rw [hpassed x (by simp)] at hblank
          contradiction
    · exact ⟨gap', rfl, hrest⟩
  rw [hrest]
  exact isWord_head?_blanks (List.all_eq_true.mpr fun y hy =>
    List.all_eq_true.mp hgap y (List.mem_append_right passed hy)) hword more

theorem refuses_some1_word {s : List Char} (hs : ∀ x ∈ s.head?, Text.isWord x = false) :
    (some1 (L := Part) Text.isWord).Refuses s :=
  refuses_seq (refuses_one hs)

theorem refuses_notWord {text : String} {y : Char} (htext : text.toList.head? = some y)
    (hword : Text.isWord y = true) {s : List Char} (hs : ∀ x ∈ s.head?, Text.isWord x = false) :
    (word (L := Part) text).Refuses s := by
  refine refuses_word htext fun hhead => ?_
  rw [hs y hhead] at hword
  contradiction

/-- The keyword of a service before a path is found where it begins. -/
theorem exists_end_serviceLead {gap more : List Char} (hgap : Text.allBlank gap = true)
    {c : Cursor Part} (hc : c.rest = "service".toList ++ (gap ++ '/' :: more))
    (hbefore : c.before.any Text.isWord = false) :
    ∃ d, (ends serviceLead c).head? = some d ∧ d.rest = gap ++ '/' :: more ∧
      d.offset = c.offset + "service".length := by
  have hkeywordLength : "service".toList.length = "service".length := by decide
  have hslash : ∀ x ∈ (gap ++ '/' :: more).head?, Text.isWord x = false :=
    isWord_head?_blanks hgap (by decide) more
  have hedge : (ends (edge : Pattern Part) c).head? = some c := by
    rw [ends, Cursor.atEdge, hbefore, hc]
    rfl
  -- No qualifier, no other kind of service, and no type stands there.
  have hqualifier : (mark Part.qualifier (anyOf (["isolated"].map word)) ++ blanks).Refuses
      ("service".toList ++ (gap ++ '/' :: more)) :=
    refuses_seq (refuses_mark _ (refuses_word (y := 'i') rfl (by simp)))
  have hkind : (blanks ++ anyOf [word "class", word "object"] ++ edge : Pattern Part).Refuses
      (gap ++ '/' :: more) :=
    refuses_seq (refuses_blanks (fun s hs => refuses_either
      (refuses_notWord (y := 'c') rfl (by decide) hs)
      (refuses_notWord (y := 'o') rfl (by decide) hs)) hgap (by decide) (by decide) more)
  have htype : (blanks ++ some1 Text.isWord ++ one (· == ':') ++ some1 Text.isWord :
      Pattern Part).Refuses (gap ++ '/' :: more) :=
    refuses_seq (refuses_seq (refuses_blanks (fun s hs => refuses_some1_word hs) hgap
      (by decide) (by decide) more))
  obtain ⟨qualified, hqualified, -, hqualifiedRest, hqualifiedOffset⟩ :=
    (takes_many_nil hqualifier).exists_end hc
  obtain ⟨keyword, hkeyword, hkeywordMem, hkeywordRest, hkeywordOffset⟩ :=
    (takes_word "service" _).exists_end hqualifiedRest
  have hword : "service".toList.all Text.isWord = true := by decide
  have hbehind : (ends (edge : Pattern Part) keyword).head? = some keyword :=
    head?_edge (before_of_mem_literal (by decide) (List.all_eq_true.mp hword) hkeywordMem)
      (by rwa [hkeywordRest])
  have hkindEnd : (ends (notAhead (blanks ++ anyOf [word "class", word "object"] ++ edge))
      keyword).head? = some keyword := by
    rw [ends, hkind keyword hkeywordRest]
    rfl
  obtain ⟨d, hd, -, hdRest, hdOffset⟩ :=
    (takes_either_right (s := []) htype (takes_empty _)).exists_end hkeywordRest
  refine ⟨d, ?_, hdRest, ?_⟩
  · exact head?_flatMap_of_head? (head?_flatMap_of_head? (head?_flatMap_of_head?
      (head?_flatMap_of_head? (head?_flatMap_of_head? hedge hqualified) hkeyword) hbehind)
        hkindEnd) hd
  · rw [hdOffset, hkeywordOffset, hqualifiedOffset, hkeywordLength]
    rfl

theorem isBlank_of_isServicePathChar {x : Char} (hx : isServicePathChar x = true) :
    Text.isBlank x = false := by
  simp only [isServicePathChar, Bool.or_eq_true, List.contains_eq_mem, decide_eq_true_eq,
    List.mem_cons, List.not_mem_nil, or_false] at hx
  rcases hx with hword | rfl | rfl | rfl | rfl | rfl
  · exact Text.isBlank_of_isWord hword
  all_goals decide

/-- A path goes up to the white space behind it. -/
theorem takes_servicePath {path : List Char} (hpath : ∀ x ∈ path, isServicePathChar x = true)
    (hrest : ∀ x ∈ rest.head?, Text.isBlank x = true) :
    servicePath.Takes ('/' :: path) rest := by
  refine takes_either_left (takes_seq (s := ['/']) (takes_one _ (by decide) _)
    (takes_run hpath fun x hx => ?_))
  by_contra hchar
  have hblank := hrest x hx
  rw [isBlank_of_isServicePathChar (by simpa using hchar)] at hblank
  contradiction

/-- Where a path stands behind white space, the path is marked. -/
theorem exists_end_servicePlace {gap path : List Char} (hgap : Text.allBlank gap = true)
    (hpath : ∀ x ∈ path, isServicePathChar x = true)
    (hrest : ∀ x ∈ rest.head?, Text.isBlank x = true) {c : Cursor Part}
    (hc : c.rest = gap ++ ('/' :: path ++ rest)) :
    ∃ d, (ends servicePlace c).head? = some d ∧ d.rest = rest ∧
      d.offset = c.offset + gap.length + ('/' :: path).length ∧
      d.marks.find? (·.1 = Part.path) = some (Part.path,
        ⟨c.offset + gap.length, c.offset + gap.length + ('/' :: path).length⟩) := by
  have hslash : ∀ x ∈ ('/' :: path ++ rest).head?, Text.isBlank x = false := by
    rintro x ⟨⟩
    decide
  obtain ⟨spaced, hspaced, -, hspacedRest, hspacedOffset⟩ :=
    (takes_spaces hgap hslash).exists_end hc
  obtain ⟨d, hd, -, hdRest, hdOffset⟩ :=
    (takes_servicePath hpath hrest).exists_end hspacedRest
  have hmarked : (ends (mark Part.path servicePath) spaced).head? =
      some (d.withMark Part.path spaced.offset) := by
    rw [ends, List.head?_map, hd]
    rfl
  refine ⟨d.withMark Part.path spaced.offset, ?_, hdRest, ?_, ?_⟩
  · exact head?_append_of_head? (head?_append_of_head? (head?_flatMap_of_head? hspaced hmarked) _) _
  · rw [← hspacedOffset]
    exact hdOffset
  · rw [← hspacedOffset, ← hdOffset]
    rfl

/-- Where the word `on` stands behind white space, it is marked. -/
theorem exists_end_serviceListener (gap : Separator)
    (hrest : ∀ x ∈ rest.head?, Text.isWord x = false) {c : Cursor Part}
    (hc : c.rest = gap.text ++ "on".toList ++ rest) :
    ∃ d, (ends serviceListener c).head? = some d ∧ d.rest = rest ∧
      d.offset = c.offset + (gap.text ++ "on".toList).length ∧
      d.marks.find? (·.1 = Part.path) = c.marks.find? (·.1 = Part.path) ∧
      (d.marks.find? (·.1 = Part.listener)).isSome = true := by
  have hword : "on".toList.all Text.isWord = true := by decide
  have hon : ∀ x ∈ ("on".toList ++ rest).head?, Text.isBlank x = false := by
    rintro x ⟨⟩
    decide
  have htakes : (blanks ++ word "on" ++ edge : Pattern Part).Takes (gap.text ++ "on".toList)
      rest := by
    refine takes_edge (takes_seq (takes_blanks gap hon) (takes_word "on" rest)) ?_ hrest
    intro c d hd
    obtain ⟨e, -, hd⟩ := List.mem_flatMap.mp hd
    exact before_of_mem_literal (by decide) (List.all_eq_true.mp hword) hd
  obtain ⟨d, hd, hdMem, hdRest, hdOffset⟩ := (takes_mark Part.listener htakes).exists_end hc
  have hhead : (ends serviceListener c).head? = some d := head?_append_of_head? hd _
  have hmarks : (mark Part.listener (blanks ++ word "on" ++ edge)).Marks Part.listener := by decide
  obtain ⟨span, hspan⟩ := exists_mark_of_mem_ends hmarks hdMem
  refine ⟨d, hhead, hdRest, hdOffset, ?_, ?_⟩
  · exact find_mark_of_mem_ends (by decide) (List.mem_of_mem_head? hhead)
  · exact List.find?_isSome.mpr ⟨_, hspan, by simp⟩

/-- The header of a service is found where it begins, with its path and the word before its
listener. -/
theorem exists_end_service (layout : ServiceLayout) {c : Cursor Part}
    (hc : c.rest = layout.header ++ rest) (hrest : ∀ x ∈ rest.head?, Text.isBlank x = true)
    (hbefore : c.before.any Text.isWord = false) (hoffset : c.offset = layout.keyword) :
    ∃ d, (ends service c).head? = some d ∧ d.offset = layout.keyword + layout.header.length ∧
      d.marks.find? (·.1 = Part.path) = some (Part.path, layout.pathSpan) ∧
      (d.marks.find? (·.1 = Part.listener)).isSome = true := by
  have hsplit : c.rest = "service".toList ++
      (layout.gap ++ '/' :: (layout.path ++ (layout.behindPath ++ rest))) := by
    rw [hc]
    unfold ServiceLayout.header
    generalize "service".toList = keyword
    simp only [List.append_assoc, List.cons_append]
  have hword : ∀ x ∈ rest.head?, Text.isWord x = false :=
    fun x hx => Text.isWord_of_isBlank (hrest x hx)
  have hgap : ∀ x ∈ (layout.behindPath ++ rest).head?, Text.isBlank x = true := by
    obtain ⟨y, gap, hgap⟩ := List.exists_cons_of_ne_nil layout.pathGap.nonempty
    have hblank := layout.pathGap.blank
    rw [ServiceLayout.behindPath, hgap]
    rw [hgap] at hblank
    rintro x ⟨⟩
    exact List.all_eq_true.mp hblank y List.mem_cons_self
  -- The places behind the keyword, the path, and the word before the listener.
  obtain ⟨lead, hlead, hleadRest, hleadOffset⟩ :=
    exists_end_serviceLead layout.gap_blank hsplit hbefore
  obtain ⟨place, hplace, hplaceRest, hplaceOffset, hpath⟩ :=
    exists_end_servicePlace layout.gap_blank layout.path_chars hgap hleadRest
  obtain ⟨d, hd, -, hdOffset, hkept, hlistener⟩ :=
    exists_end_serviceListener layout.pathGap hword hplaceRest
  refine ⟨d, ?_, ?_, ?_, hlistener⟩
  · rw [service_eq]
    exact head?_flatMap_of_head? (head?_flatMap_of_head? hlead hplace) hd
  · rw [hdOffset, hplaceOffset, hleadOffset, hoffset, layout.length_header]
    simp only [ServiceLayout.behindPath, Nat.add_assoc]
  · rw [hkept, hpath, hleadOffset, hoffset]
    rfl

end Patterns

namespace ServiceLayout

variable {text : List Char} (layout : ServiceLayout)

/-! ## What stands before the declaration -/

/-- What stands before the declaration ends with a semicolon or a brace, if with anything, and
white space. -/
theorem exists_stem : ∃ stem gap, layout.front = stem ++ gap ∧ Text.allBlank gap = true ∧
    ∀ x ∈ stem.getLast?, x = ';' ∨ x = '}' := by
  obtain ⟨gap, hgap, hblank⟩ := Text.exists_trimLeft layout.front.reverse
  refine ⟨Text.trimRight layout.front, gap.reverse, ?_, ?_, layout.front_last⟩
  · rw [Text.trimRight, ← List.reverse_append, ← hgap, List.reverse_reverse]
  · exact List.all_eq_true.mpr fun x hx => hblank x (List.mem_reverse.mp hx)

/-- Behind a semicolon or a brace and white space stands no word. -/
theorem isWord_getLast?_stem {stem gap : List Char}
    (hstem : ∀ x ∈ stem.getLast?, x = ';' ∨ x = '}') (hgap : Text.allBlank gap = true) :
    (stem ++ gap).getLast?.any Text.isWord = false := by
  rw [List.getLast?_append]
  cases hlast : gap.getLast? with
  | some x =>
      exact Text.isWord_of_isBlank (List.all_eq_true.mp hgap x (List.mem_of_getLast? hlast))
  | none =>
      cases hlast' : stem.getLast? with
      | none => rfl
      | some x =>
          rcases hstem x hlast' with rfl | rfl
          · exact (by decide : Text.isWord ';' = false)
          · exact (by decide : Text.isWord '}' = false)

theorem isWord_getLast?_front : layout.front.getLast?.any Text.isWord = false := by
  obtain ⟨stem, gap, hfront, hgap, hstem⟩ := layout.exists_stem
  rw [hfront]
  exact isWord_getLast?_stem hstem hgap

/-- The declaration is outside all blocks. -/
@[simp] theorem blockDepth_front : blockDepth 0 layout.front = 0 :=
  blockDepth_of_level (layout.front_balanced.level_eq (by decide) 0)

/-- A place before the declaration has a semicolon or a brace ahead of it, or it is in the white
space, where no word begins. -/
theorem place {before between : List Char} (hfront : layout.front = before ++ between) :
    (∃ x ∈ between, ¬ Patterns.NoStop x) ∨
      (before.getLast?.any Text.isWord = false ∧ between.head?.any Text.isWord = false) := by
  obtain ⟨stem, gap, hsplit, hgap, hstem⟩ := layout.exists_stem
  have hblank : ∀ {first second : List Char}, gap = first ++ second →
      (stem ++ first).getLast?.any Text.isWord = false ∧
        second.head?.any Text.isWord = false := by
    rintro first second rfl
    rw [Text.allBlank, List.all_append, Bool.and_eq_true] at hgap
    refine ⟨isWord_getLast?_stem hstem hgap.1, ?_⟩
    cases second with
    | nil => rfl
    | cons x second =>
        exact Text.isWord_of_isBlank (List.all_eq_true.mp hgap.2 x List.mem_cons_self)
  rcases List.append_eq_append_iff.mp (hsplit.symm.trans hfront) with
    ⟨first, rfl, hfirst⟩ | ⟨inside, hinside, rfl⟩
  · exact .inr (hblank hfirst)
  · cases hlast : inside.getLast? with
    | none =>
        obtain rfl := List.getLast?_eq_none_iff.mp hlast
        rw [List.append_nil] at hinside
        have hboth := hblank (List.nil_append gap).symm
        rw [List.append_nil, hinside] at hboth
        exact .inr hboth
    | some x =>
        have hx : x ∈ stem.getLast? := by
          rw [hinside, List.getLast?_append, hlast, Option.some_or]
          rfl
        refine .inl ⟨x, List.mem_append_left _ (List.mem_of_getLast? hlast), fun hstop => ?_⟩
        rcases hstem x hx with heq | heq
        · exact hstop.2 heq
        · exact hstop.1.2 heq

/-- A header that begins before the declaration ends before it: it goes beyond no semicolon and
no brace, and begins at the edge of a word. -/
theorem stop_le_of_found (hmask : mask text = layout.text) {m : Match Part}
    (hm : Patterns.service.Found layout.text m) (hstart : m.span.start < layout.keyword) :
    m.span.stop ≤ layout.keyword := by
  obtain ⟨before, after, d, htext, -, hd, rfl⟩ := hm
  obtain ⟨passed, hleads, hsort⟩ := Patterns.passesOn_service (hmask.trans htext) rfl hd
  have hafter : after = passed ++ d.rest := hleads.rest_eq
  have hoffset : d.offset = before.length + passed.length := hleads.offset_eq
  have hlt : before.length < layout.front.length := hstart
  obtain ⟨between, hbetween⟩ : before <+: layout.front :=
    List.prefix_of_prefix_length_le ⟨after, htext.symm⟩ ⟨_, rfl⟩ hlt.le
  have hlength := congrArg List.length hbetween
  rw [List.length_append] at hlength
  have hrest : after = between ++ (layout.header ++ layout.behind) := by
    rw [ServiceLayout.text, ← hbetween, List.append_assoc] at htext
    exact (List.append_cancel_left htext).symm
  show d.offset ≤ layout.front.length
  by_contra hstop
  rcases layout.place hbetween.symm with ⟨x, hx, hnot⟩ | ⟨hbefore, hhead⟩
  · -- What is left of the text before the declaration is passed over.
    have hpassed : between <+: passed :=
      List.prefix_of_prefix_length_le ⟨_, hrest.symm⟩ ⟨_, hafter.symm⟩ (by omega)
    exact hnot (hsort x (hpassed.subset hx))
  · obtain ⟨x, between, rfl⟩ : ∃ x more, between = x :: more := by
      refine List.exists_cons_of_ne_nil ?_
      rintro rfl
      rw [List.length_nil] at hlength
      omega
    have hedge : Patterns.service.AtEdge := trivial
    rw [Pattern.ends_eq_nil_of_atEdge hedge
      (Pattern.atEdge_eq_false hbefore (by rw [hrest]; exact hhead))] at hd
    contradiction

/-! ## The service -/

/-- The header is one of the matches of the text, outside all blocks. -/
theorem exists_match (hmask : mask text = layout.text) :
    ∃ m ∈ Locate.topLevelMatches Patterns.service layout.text,
      m.span = ⟨layout.keyword, layout.listenerSpan.start⟩ ∧
      m.part? .path = some layout.pathSpan ∧ m.hasPart .listener = true := by
  have hapart : ∀ x ∈ layout.behind.head?, Text.isBlank x = true := by
    have hlistener := layout.listener_apart
    cases hhead : layout.listener.head? with
    | none =>
        rw [hhead] at hlistener
        contradiction
    | some y =>
        rw [behind, Pattern.head?_append_of_head? hhead]
        rw [hhead] at hlistener
        rintro x ⟨⟩
        exact hlistener
  obtain ⟨d, hd, hoffset, hpath, hlistener⟩ := Patterns.exists_end_service layout
    (c := ⟨layout.front.getLast?, layout.header ++ layout.behind, layout.keyword, []⟩) rfl hapart
    layout.isWord_getLast?_front rfl
  have hne : layout.header ++ layout.behind ≠ [] := by simp [behind]
  refine ⟨⟨⟨layout.keyword, d.offset⟩, d.marks⟩, List.mem_filter.mpr ⟨?_, ?_⟩, ?_, ?_, ?_⟩
  · refine Pattern.mem_allMatches_of_matchAt hne ?_
      fun m' hm' hstart => layout.stop_le_of_found hmask hm' hstart
    rw [Pattern.matchAt_eq]
    exact congrArg (Option.map _) hd
  · exact BlockMap.isTopLevel_of_blockDepth layout.blockDepth_front _
  · rw [hoffset]
    rfl
  · rw [Match.part?, hpath]
    rfl
  · rw [Match.hasPart, Match.part?, Option.isSome_map]
    exact hlistener

/-- The service is one of those of the text. -/
theorem mem_services_text (hmask : mask text = layout.text) :
    ⟨layout.span, .service ⟨some layout.pathSpan, some layout.listenerSpan, layout.opening⟩⟩ ∈
      declarations (Locate.services layout.text) := by
  obtain ⟨m, hm, hspan, hpath, hlistener⟩ := layout.exists_match hmask
  have hopening : Locate.serviceOpening? layout.text m = some layout.opening := by
    rw [Locate.serviceOpening?, hspan, if_pos hlistener, drop_header]
    exact layout.listener_sheltered.blockStartFrom_append _ _
  have hbody : Bracket.blockEndFrom (layout.opening + 1) (layout.text.drop (layout.opening + 1)) =
      some layout.span.stop := by
    have hclosing := closingFrom_of_level (by decide) layout.bodySpan.start
      (layout.body_balanced.level_eq (by decide) 0) layout.rest
    rw [← drop_body] at hclosing
    exact hclosing
  have hdeclared := Locate.serviceOutcome_eq_declared.mpr ⟨_, _, hopening, hbody, rfl⟩
  rw [Locate.serviceHeader, hpath, hlistener, hspan, if_pos rfl] at hdeclared
  exact Locate.mem_declarations.mpr (List.mem_map.mpr ⟨m, hm, hdeclared⟩)

/-! ## What is read of it -/

/-- The path is read as it stands in the mask. -/
theorem readPart_path (hmask : mask text = layout.text) :
    readPart text layout.pathSpan = String.ofList ('/' :: layout.path) := by
  have hslice := layout.slice_path
  rw [← hmask] at hslice
  refine readPart_of_visible hslice ?_
  rw [List.mem_cons, not_or]
  exact ⟨by decide, fun hmem => absurd (layout.path_chars _ hmem) (by decide)⟩

/-- The listener is read without the white space around it, and something is left of it. -/
theorem readTrimmed_listener (hmask : mask text = layout.text) :
    ∃ listener, IsStripped Text.isBlank (layout.listenerSpan.slice text) listener ∧
      readTrimmed text layout.listenerSpan = some (String.ofList listener) := by
  have hvisible : Text.allBlank (layout.listenerSpan.slice text) = false := by
    refine allBlank_slice_of_mask ?_
    rw [hmask, slice_listener]
    exact layout.listener_visible
  exact ⟨_, isStripped_stripChars Text.isBlank _, readTrimmed_of_visible hvisible⟩

/-- A service is called by its path without the slashes around it. -/
theorem serviceName_path :
    ∃ shown, IsStripped (· == '/') ('/' :: layout.path) shown ∧
      serviceName (some (String.ofList ('/' :: layout.path))) =
        if shown.isEmpty then unnamedService else String.ofList shown := by
  refine ⟨_, isStripped_stripChars _ _, ?_⟩
  -- There are no quotes in the path.
  have hquote : ∀ x ∈ '/' :: layout.path, (x == '"') = false := by
    intro x hx
    rw [beq_eq_false_iff_ne]
    rintro rfl
    rcases List.mem_cons.mp hx with heq | hmem
    · exact absurd heq (by decide)
    · exact absurd (layout.path_chars _ hmem) (by decide)
  have hstripped : IsStripped (· == '"') ('/' :: layout.path) ('/' :: layout.path) :=
    ⟨⟨[], [], by simp, by simp, by simp⟩, fun x hx => hquote x (List.mem_of_mem_head? hx),
      fun x hx => hquote x (List.mem_of_getLast? hx)⟩
  simp only [serviceName, Option.getD_some, String.toList_ofList, hstripped.stripChars_eq]

end ServiceLayout

/-- What a declaration tells of a service: where it stands, from its keyword to past its last
brace, where its body opens and what the body is, its path, the listener in the text itself, and
its name. -/
structure Declaration.TellsOfService (layout : ServiceLayout) (text : List Char)
    (d : Declaration String) : Prop where
  span : d.span = layout.span
  headerEnd : d.headerEnd? = some layout.opening
  body : d.body? = some layout.bodySpan ∧ layout.bodySpan.slice (mask text) = layout.body
  header : ∃ listener, IsStripped Text.isBlank (layout.listenerSpan.slice text) listener ∧
    d.shape = .service ⟨some (String.ofList ('/' :: layout.path)), some (String.ofList listener),
      layout.opening⟩
  name : ∃ shown, IsStripped (· == '/') ('/' :: layout.path) shown ∧
    d.name? = some (if shown.isEmpty then unnamedService else String.ofList shown)

/-- If the mask of a text has a service with a path and a listener behind a text with balanced
braces that ends like a declaration, that service is found in the text. -/
theorem found_of_serviceLayout {text : List Char} (layout : ServiceLayout)
    (hmask : mask text = layout.text) :
    ∃ d ∈ found text .service, d.TellsOfService layout text := by
  have hmem := layout.mem_services_text hmask
  rw [← hmask] at hmem
  have hpath := layout.readPart_path hmask
  obtain ⟨listener, hstripped, hlistener⟩ := layout.readTrimmed_listener hmask
  obtain ⟨shown, hshown, hname⟩ := layout.serviceName_path
  refine ⟨_, List.mem_map_of_mem hmem, rfl, rfl, ⟨rfl, ?_⟩, ⟨listener, hstripped, ?_⟩,
    ⟨shown, hshown, ?_⟩⟩
  · rw [hmask, layout.slice_body]
  · simp only [Declaration.read, Shape.read, Service.read, Option.map_some, Option.bind_some, hpath,
      hlistener]
  · rw [← hname, ← hpath]
    rfl

/-- A service behind an import, with a listener that has a brace and a semicolon in it. -/
def listedService : String :=
  "import ballerina/http;\n\nservice /api/v1/\n    on new http:Listener(8080, " ++
    "\x7bhost: \";\"\x7d) \x7b\n  // Nothing.\n\x7d\n"

/-- Its mask, in which the string and the comment are white space. -/
def listedLayout : ServiceLayout where
  front := "import ballerina/http;\n\n".toList
  gap := " ".toList
  path := "api/v1/".toList
  pathGap := ⟨"\n    ".toList, by decide, by decide⟩
  listener := " new http:Listener(8080, \x7bhost: \" \"\x7d) ".toList
  body := "\n             \n".toList
  rest := ['\n']
  front_balanced := by decide +kernel
  front_last := by
    have hlast : (Text.trimRight "import ballerina/http;\n\n".toList).getLast? = some ';' := by
      decide +kernel
    rw [hlast]
    rintro x ⟨⟩
    exact .inl rfl
  gap_blank := by decide
  path_chars := List.all_eq_true.mp (by decide)
  listener_apart := by decide
  listener_visible := by decide
  listener_sheltered := by decide +kernel
  body_balanced := by decide

theorem found_of_serviceLayout_listed :
    mask listedService.toList = listedLayout.text ∧
      ∃ d ∈ found listedService.toList .service,
        d.TellsOfService listedLayout listedService.toList := by
  have hmask : mask listedService.toList = listedLayout.text := by decide +kernel
  exact ⟨hmask, found_of_serviceLayout listedLayout hmask⟩

end SourceChunks
