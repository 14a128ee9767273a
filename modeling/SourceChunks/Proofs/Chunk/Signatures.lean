import Mathlib
import SourceChunks.Proofs.Chunk.Coverage
import SourceChunks.Proofs.Declaration.HeaderText
import SourceChunks.Proofs.Declaration.ParameterLists

/-!
# Signatures and the headers that they are written from

The signature of a function or resource is put together from the parts of its header, which are
read from the text.  It says all that the header does, but for white space, if no comment stands
in the header and no blank parameter is dropped.

* `visible_functionSignature`, `visible_resourceSignature`: what a signature says.
* `visible_header`: what a header says, behind its opening parenthesis.
* `signature_lossless_iff`: when a signature says all that its header does.
-/

namespace SourceChunks

/-! ## Signatures -/

/-- Without white space, it does not matter that words are on one line. -/
theorem visible_unwords (words : List String) :
    Text.visible (" ".intercalate words).toList = Text.visible (words.flatMap String.toList) := by
  have hspace : Text.visible " ".toList = [] := by decide
  rw [String.toList_intercalate, Text.visible_intercalate, hspace, List.flatMap_def,
    Text.visible_flatten]
  generalize (words.map String.toList).map Text.visible = rows
  induction rows with
  | nil => rfl
  | cons row rows ih =>
      cases rows with
      | nil => rw [List.intercalate_singleton, List.flatten_singleton]
      | cons row' rows =>
          rw [List.intercalate_cons_cons, ih, List.append_nil]
          rfl

theorem visible_functionSignature (isPublic : Bool) (qualifiers : List String) (name : String)
    (parameters : List String) (returns : Option String) :
    Text.visible (functionSignature isPublic qualifiers name parameters returns).toList =
      (if isPublic then "public".toList else []) ++
        Text.visible (qualifiers.flatMap String.toList) ++ "function".toList ++
        Text.visible name.toList ++ ['('] ++
        Text.visible (", ".intercalate parameters).toList ++
        (')' :: Text.visible ((returnsWords returns).flatMap String.toList)) := by
  have hpublic : Text.visible ((if isPublic then ["public"] else []).flatMap String.toList) =
      if isPublic then "public".toList else [] := by
    cases isPublic
    · rfl
    · decide
  have hkeyword : Text.visible "function ".toList = "function".toList := by decide
  have hopening : Text.visible "(".toList = ['('] := by decide
  have hclosing : Text.visible ")".toList = [')'] := by decide
  rw [functionSignature, visible_unwords]
  simp only [List.flatMap_append, List.flatMap_cons, String.toList_append,
    Text.visible_append, hpublic, hkeyword, hopening, hclosing, List.append_assoc,
    List.cons_append, List.nil_append]

theorem visible_resourceSignature (qualifiers : List String) (method path : String)
    (parameters : List String) (returns : Option String) :
    Text.visible (resourceSignature qualifiers method path parameters returns).toList =
      Text.visible (qualifiers.flatMap String.toList) ++ "resource".toList ++ "function".toList ++
        Text.visible method.toList ++ Text.visible path.toList ++ ['('] ++
        Text.visible (", ".intercalate parameters).toList ++
        (')' :: Text.visible ((returnsWords returns).flatMap String.toList)) := by
  have hkeyword : Text.visible "resource function ".toList =
      "resource".toList ++ "function".toList := by decide
  have hspace : Text.visible " ".toList = [] := by decide
  have hopening : Text.visible "(".toList = ['('] := by decide
  have hclosing : Text.visible ")".toList = [')'] := by decide
  rw [resourceSignature, visible_unwords]
  simp only [List.flatMap_append, List.flatMap_cons, String.toList_append,
    Text.visible_append, hkeyword, hspace, hopening, hclosing, List.append_assoc,
    List.cons_append, List.nil_append]

section

variable {text : List Char}

/-- The return type on one line, behind its word. -/
theorem visible_returnsWords {returns : Span} (h : Text.allBlank (returns.slice text) = false) :
    Text.visible ((returnsWords (readTrimmed text returns)).flatMap String.toList) =
      "returns".toList ++ Text.visible (returns.slice text) := by
  have hword : Text.visible "returns ".toList = "returns".toList := by decide
  have hempty : (String.ofList (Text.trim (returns.slice text))).isEmpty = false := by
    rw [String.isEmpty_eq_false_iff]
    exact fun heq => Text.trim_ne_nil h (String.ofList_eq_empty_iff.mp heq)
  rw [readTrimmed_of_visible h, returnsWords]
  simp only [hempty, if_neg Bool.false_ne_true, List.flatMap_singleton, String.toList_append,
    Text.visible_append, hword, collapsed, String.toList_ofList, Text.visible_collapse,
    Text.visible_trim]

/-! ## Headers -/

theorem start_le_opening_of_parts {mask : List Char} {start : Nat} {parts : CallableParts}
    (hparts : callableParts mask start = .ok parts) : start ≤ parts.tail.opening := by
  obtain ⟨hle, -, place, word, hplace, hshows, -⟩ := parts_header hparts
  exact hle.trans (hshows.start_lt.le.trans hplace)

/-- What a header says from some place on: what stands before its parameters, the parameters,
and what a signature says of the return type. -/
theorem visible_header {start first : Nat} {parts : CallableParts}
    (hparts : callableParts (mask text) start = .ok parts) (hfirst : first ≤ start)
    (hcomments : ∀ i ∈ comments text, i < first ∨ parts.tail.opening ≤ i)
    (hreturns : ∀ returns ∈ parts.tail.returns, Text.allBlank (returns.slice text) = false) :
    Text.visible (Span.slice ⟨first, parts.tail.opening⟩ text) =
      Text.visible (Span.slice ⟨first, start⟩ text) ++
        Text.visible (parts.parameters.slice text) ++
        (')' :: Text.visible
          ((returnsWords (parts.tail.returns.bind (readTrimmed text))).flatMap String.toList)) := by
  obtain ⟨hle, hstart, place, word, hplace, hshows, hcases⟩ := parts_header hparts
  have hlt : parts.parameters.stop < place := hshows.start_lt
  have hbehind := hshows.visible_text fun i hi => by
    rcases hcomments i hi with h | h
    · exact .inl (by show i < parts.parameters.stop; omega)
    · exact .inr (hplace.trans h)
  have hparameters : Span.slice ⟨start, parts.parameters.stop⟩ text =
      parts.parameters.slice text := by
    rw [← hstart]
  rw [Span.slice_split hfirst (show start ≤ parts.tail.opening by omega),
    Span.slice_split hle (show parts.parameters.stop ≤ parts.tail.opening by omega),
    Span.slice_split hlt.le hplace, hparameters]
  simp only [Text.visible_append, hbehind, List.append_assoc]
  rcases hcases with ⟨rfl, hnone, hopening⟩ | ⟨rfl, hsome⟩
  · rw [hnone, hopening]
    simp [Span.slice, returnsWords]
  · rw [hsome] at hreturns ⊢
    rw [Option.bind_some, visible_returnsWords (hreturns _ rfl)]
    rfl

/-- With the same in front and behind, only the parameters tell whether all is said. -/
theorem append_joined_iff (lead list behind : List Char) :
    lead ++ Text.visible (", ".intercalate (splitParameters (String.ofList list))).toList ++
          behind =
        lead ++ Text.visible list ++ behind ↔
      Text.allBlank list = true ∨ ∀ piece ∈ piecesOf list, Text.allBlank piece = false := by
  rw [List.append_left_inj, List.append_right_inj, toList_intercalate_splitParameters,
    String.toList_ofList, visible_join_iff]

@[simp] theorem flatMap_toList_readPart (spans : List Span) :
    (spans.map (readPart text)).flatMap String.toList = spans.flatMap (·.slice text) := by
  rw [List.flatMap_map]
  simp only [readPart, String.toList_ofList]

section

variable {m : Match Part} {parts : CallableParts}

/-- What the header of a function says, up to its opening parenthesis. -/
theorem visible_functionHeader (hm : Patterns.function.Found (mask text) m)
    (hcomments : ∀ i ∈ comments text, i < m.span.start ∨ m.span.stop ≤ i) :
    Text.visible (Span.slice ⟨m.span.start, m.span.stop⟩ text) =
      (if m.hasPart .visibility then "public".toList else []) ++
        Text.visible ((m.parts .qualifier).flatMap (·.slice text)) ++ "function".toList ++
        Text.visible ((Locate.part m .name).slice text) ++ ['('] := by
  rw [Patterns.flatMap_slice_parts List.prefix_rfl (by decide) hm,
    Patterns.slice_part List.prefix_rfl (by decide) hm]
  exact (Patterns.function_header hm).visible_text hcomments

theorem ne_space_of_visible {x : Char} (hx : Text.isBlank x = false) : x ≠ ' ' := by
  rintro rfl
  exact absurd hx (by decide)

/-- What the header of a resource says, up to its opening parenthesis. -/
theorem visible_resourceHeader {scope : List Char} (hscope : scope <+: mask text)
    (hm : Patterns.resource.Found scope m)
    (hcomments : ∀ i ∈ comments text, i < m.span.start ∨ m.span.stop ≤ i) :
    Text.visible (Span.slice ⟨m.span.start, m.span.stop⟩ text) =
      Text.visible ((m.parts .qualifier).flatMap (·.slice text)) ++ "resource".toList ++
        "function".toList ++ Text.visible ((Locate.part m .method).slice text) ++
        Text.visible ((Locate.part m .path).slice text) ++ ['('] := by
  obtain ⟨hshows, hpath, x, hvisible, hx, hbehind⟩ := Patterns.resource_header hm
  rw [Patterns.flatMap_slice_parts hscope (by decide) hm,
    Patterns.slice_part hscope (by decide) hm]
  generalize Locate.part m .path = path at hshows hpath hx hbehind ⊢
  have hfirst : m.span.start < path.start := hshows.start_lt
  have hlast : path.stop - 1 < m.span.stop := hbehind.start_lt
  have hlead : Text.visible (Span.slice ⟨m.span.start, path.start⟩ text) = _ :=
    (hshows.of_prefix hscope).visible_text fun i hi => (hcomments i hi).imp_right fun h => by
      show path.start ≤ i
      omega
  have hend : Text.visible (Span.slice ⟨path.stop - 1, m.span.stop⟩ text) = _ :=
    (hbehind.of_prefix hscope).visible_text fun i hi => (hcomments i hi).imp_left fun h => by
      show i < path.stop - 1
      omega
  -- The last character of the path is in both of the stretches that end with it.
  have hpathEnd : Span.slice ⟨path.stop - 1, path.stop⟩ text = [x] := by
    obtain ⟨hlt, rfl⟩ := List.getElem?_eq_some_iff.mp hx
    have hone := Span.slice_singleton (getElem?_of_maskFrom (ne_space_of_visible hvisible)
      (List.prefix_iff_getElem?.mp hscope _ hlt))
    rwa [Nat.sub_add_cancel (by omega)] at hone
  have hpathText : path.slice text = Span.slice ⟨path.start, path.stop - 1⟩ text ++ [x] := by
    rw [← hpathEnd]
    exact Span.slice_split (by omega) (by omega) text
  rw [Span.slice_split hfirst.le (show path.start ≤ m.span.stop by omega),
    Span.slice_split (show path.start ≤ path.stop - 1 by omega) hlast.le, hpathText]
  simp only [Text.visible_append, hlead, hend, Text.visible_cons hvisible, Text.visible_nil,
    List.append_assoc]
  rfl

/-- The signature of a function says all of its header exactly if no parameter is dropped. -/
theorem functionSignature_iff (hm : Patterns.function.Found (mask text) m)
    (hparts : callableParts (mask text) m.span.stop = .ok parts)
    (hcomments : ∀ i ∈ comments text, i < m.span.start ∨ parts.tail.opening ≤ i)
    (hreturns : ∀ returns ∈ parts.tail.returns, Text.allBlank (returns.slice text) = false) :
    Text.visible (functionSignature (m.hasPart .visibility)
        ((m.parts .qualifier).map (readPart text)) (readPart text (Locate.part m .name))
        (splitParameters (readPart text parts.parameters))
        (parts.tail.returns.bind (readTrimmed text))).toList =
        Text.visible (Span.slice ⟨m.span.start, parts.tail.opening⟩ text) ↔
      Text.allBlank (parts.parameters.slice text) = true ∨
        ∀ piece ∈ piecesOf (parts.parameters.slice text), Text.allBlank piece = false := by
  have hle := start_le_opening_of_parts hparts
  have hlead := visible_functionHeader hm fun i hi => (hcomments i hi).imp_right hle.trans
  rw [visible_header hparts (Locate.bounds_of_found hm).1 hcomments hreturns,
    visible_functionSignature, flatMap_toList_readPart, hlead]
  simp only [readPart, String.toList_ofList]
  exact append_joined_iff _ _ _

/-- The same for a resource. -/
theorem resourceSignature_iff {scope : List Char} (hscope : scope <+: mask text)
    (hm : Patterns.resource.Found scope m)
    (hparts : callableParts (mask text) m.span.stop = .ok parts)
    (hcomments : ∀ i ∈ comments text, i < m.span.start ∨ parts.tail.opening ≤ i)
    (hreturns : ∀ returns ∈ parts.tail.returns, Text.allBlank (returns.slice text) = false) :
    Text.visible (resourceSignature ((m.parts .qualifier).map (readPart text))
        (readPart text (Locate.part m .method)) (readPart text (Locate.part m .path))
        (splitParameters (readPart text parts.parameters))
        (parts.tail.returns.bind (readTrimmed text))).toList =
        Text.visible (Span.slice ⟨m.span.start, parts.tail.opening⟩ text) ↔
      Text.allBlank (parts.parameters.slice text) = true ∨
        ∀ piece ∈ piecesOf (parts.parameters.slice text), Text.allBlank piece = false := by
  have hle := start_le_opening_of_parts hparts
  have hlead := visible_resourceHeader hscope hm fun i hi => (hcomments i hi).imp_right hle.trans
  rw [visible_header hparts (Locate.bounds_of_found hm).1 hcomments hreturns,
    visible_resourceSignature, flatMap_toList_readPart, hlead]
  simp only [readPart, String.toList_ofList]
  exact append_joined_iff _ _ _

end

end

/-! ## Chunks -/

section

variable {text : List Char} {d : Declaration Span} {callable : Callable Span}

/-- A function or resource in whose header no comment begins, and whose return type, if it has
one, is not blank, has a chunk for its signature.  This says all that the header does, but for
white space, exactly if the parameter list is blank or there is no blank piece in it: neither
between two commas outside brackets, nor before the first one, nor behind the last one. -/
theorem signature_lossless_iff (file : String) (hd : d ∈ declarations (Locate.all (mask text)))
    (hcallable : d.shape.callable? = some callable)
    (hcomments : ∀ i ∈ comments text, i < d.span.start ∨ callable.opening ≤ i)
    (hreturns : ∀ returns ∈ callable.returns, Text.allBlank (returns.slice text) = false) :
    ∃ signature body,
      chunksOf file text (LineIndex.ofText text) (d.read text) = [signature, body] ∧
      signature.role = some .signature ∧
      (Text.visible signature.content.toList =
          Text.visible (Span.slice ⟨d.span.start, callable.opening⟩ text) ↔
        Text.allBlank (callable.parameters.slice text) = true ∨
          ∀ piece ∈ piecesOf (callable.parameters.slice text), Text.allBlank piece = false) := by
  rcases Locate.mem_of_callable hd hcallable with hd | ⟨service, hservice, hd⟩
  · obtain ⟨m, hm, -, parts, hparts, rfl⟩ := Locate.mem_functions.mp hd
    obtain rfl := Option.some.inj hcallable
    exact ⟨_, _, rfl, rfl,
      functionSignature_iff (Pattern.found_of_mem_allMatches hm) hparts hcomments hreturns⟩
  · obtain ⟨header, front, inside, behind, -, hmask, -, -, heq⟩ :=
      Locate.exists_body_of_service hservice
    have hlength : front.length + inside.length ≤ (mask text).length := by
      rw [hmask, List.length_append, List.length_append]
      omega
    rw [heq] at hd
    obtain ⟨m, hm, -, parts, hparts, -, rfl⟩ := Locate.mem_resources.mp hd
    obtain rfl := Option.some.inj hcallable
    have hfound := Pattern.found_of_mem_matchesIn (Nat.le_add_right _ _) hlength hm
    exact ⟨_, _, rfl, rfl,
      resourceSignature_iff (List.take_prefix _ _) hfound hparts hcomments hreturns⟩

end

/-- A header on two lines behind a comment, with two slashes in a string. -/
def twoLineHeader : List Char :=
  ("// Opens.\npublic function open(string scheme =\n\t\"http://\") " ++
    "returns int | error \x7b\n\x7d").toList

theorem signature_lossless_iff_twoLineHeader :
    ∃ d ∈ declarations (Locate.all (mask twoLineHeader)), ∃ callable,
      d.shape.callable? = some callable ∧
      (∀ i ∈ comments twoLineHeader, i < d.span.start ∨ callable.opening ≤ i) ∧
      (∀ returns ∈ callable.returns, Text.allBlank (returns.slice twoLineHeader) = false) ∧
      ∃ signature body,
        chunksOf "a.bal" twoLineHeader (LineIndex.ofText twoLineHeader) (d.read twoLineHeader) =
          [signature, body] ∧
        Text.visible signature.content.toList =
          Text.visible (Span.slice ⟨d.span.start, callable.opening⟩ twoLineHeader) := by
  have hd : ⟨⟨10, 82⟩, .function true ⟨26, 30⟩ ⟨[], ⟨31, 57⟩, some ⟨66, 79⟩, 79⟩⟩ ∈
      declarations (Locate.all (mask twoLineHeader)) := by
    decide +kernel
  have hcomments : ∀ i ∈ comments twoLineHeader, i < 10 ∨ 79 ≤ i := by decide +kernel
  have hreturns : ∀ returns ∈ some (Span.mk 66 79),
      Text.allBlank (returns.slice twoLineHeader) = false := by
    rintro _ ⟨⟩
    decide +kernel
  have hpieces : ∀ piece ∈ piecesOf ((Span.mk 31 57).slice twoLineHeader),
      Text.allBlank piece = false := by
    decide +kernel
  obtain ⟨signature, body, hchunks, -, hiff⟩ :=
    signature_lossless_iff "a.bal" hd rfl hcomments hreturns
  exact ⟨_, hd, _, rfl, hcomments, hreturns, signature, body, hchunks, hiff.mpr (.inr hpieces)⟩

/-- A parameter list with a comma behind its last parameter. -/
def trailingComma : List Char :=
  "function f(int a,) \x7b\n\x7d".toList

/-- The comma is lost, since the blank piece behind it is no parameter. -/
theorem signature_of_trailingComma :
    ∃ d ∈ declarations (Locate.all (mask trailingComma)), ∃ callable,
      d.shape.callable? = some callable ∧ comments trailingComma = [] ∧ callable.returns = none ∧
      (∀ piece ∈ (piecesOf (callable.parameters.slice trailingComma)).tail.dropLast,
        Text.allBlank piece = false) ∧
      ∃ signature body,
        chunksOf "a.bal" trailingComma (LineIndex.ofText trailingComma) (d.read trailingComma) =
          [signature, body] ∧
        signature.role = some .signature ∧
        Text.visible signature.content.toList ≠
          Text.visible (Span.slice ⟨d.span.start, callable.opening⟩ trailingComma) := by
  have hd : ⟨⟨0, 22⟩, .function false ⟨9, 10⟩ ⟨[], ⟨11, 17⟩, none, 19⟩⟩ ∈
      declarations (Locate.all (mask trailingComma)) := by
    decide +kernel
  have hcomments : comments trailingComma = [] := by decide +kernel
  have hpieces : ∀ piece ∈ (piecesOf ((Span.mk 11 17).slice trailingComma)).tail.dropLast,
      Text.allBlank piece = false := by
    decide +kernel
  exact ⟨_, hd, _, rfl, hcomments, rfl, hpieces, _, _, rfl, rfl, by decide +kernel⟩

end SourceChunks
