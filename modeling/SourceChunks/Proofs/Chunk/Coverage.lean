import Mathlib
import SourceChunks.Proofs.Chunk.Bounding
import SourceChunks.Proofs.Chunk.Concatenation
import SourceChunks.Proofs.Declaration.FunctionLayout
import SourceChunks.Proofs.Declaration.Outlined
import SourceChunks.Proofs.Text.Words

/-!
# The chunks of a function

A text whose mask holds one function and nothing else has two chunks of functions: the signature
and the body.  Both tell what the function is called, where it stands, whether it is public, and
what stands between its parentheses and behind the word `returns` in the text itself, where
comments and the interiors of literals are still there.

* `filter_function`: the chunks of functions in a listing without parts.
* `collapsed_readTrimmed`: a return type on one line.
* `Chunk.TellsOf`: what the chunks of a function tell of it.
* `chunks_of_function`: the chunks of such a text.
-/

namespace SourceChunks

section

variable {limit : Limit} {file text : String}

/-- Without parts, the chunks of a group are those of its declarations. -/
theorem groupChunks_of_unnumbered (h : ∀ chunk ∈ chunkText limit file text, chunk.part = none)
    {group : Kind} (hgroup : group ∈ Kind.groups) :
    groupChunks limit file text group =
      (declaredBy (Locate.ofGroup group) text.toList).flatMap
        (chunksOf file text.toList (LineIndex.ofText text.toList)) := by
  have hbound : ∀ chunk ∈ (declaredBy (Locate.ofGroup group) text.toList).flatMap
      (chunksOf file text.toList (LineIndex.ofText text.toList)), bound limit chunk = [chunk] := by
    intro chunk hchunk
    refine bound_eq_of_unnumbered fun piece hpiece => h piece ?_
    rw [chunkText_eq]
    exact List.mem_flatMap.mpr ⟨group, hgroup, List.mem_flatMap.mpr ⟨chunk, hchunk, hpiece⟩⟩
  rw [groupChunks, List.flatMap_congr hbound]
  exact List.flatMap_singleton' _

/-- The chunks of functions that a listing without parts holds. -/
theorem filter_function (h : ∀ chunk ∈ chunkText limit file text, chunk.part = none) :
    (chunkText limit file text).filter (·.kind = .function) =
      (declaredBy Locate.functions text.toList).flatMap
        (chunksOf file text.toList (LineIndex.ofText text.toList)) := by
  have hkinds : ∀ kind : Kind, (kind = .function ↔ kind.group = .function) := by
    intro kind
    cases kind <;> decide
  have hgroup : Kind.function ∈ Kind.groups := by decide
  calc (chunkText limit file text).filter (·.kind = .function)
      = (chunkText limit file text).filter (·.kind.group = .function) :=
        List.filter_congr fun chunk _ => decide_eq_decide.mpr (hkinds chunk.kind)
    _ = groupChunks limit file text .function := filter_chunkText limit file text hgroup
    _ = _ := groupChunks_of_unnumbered h hgroup

end

/-! ## Reading -/

/-- On one line, it does not matter that a part was trimmed. -/
theorem collapsed_readTrimmed {text : List Char} {span : Span}
    (h : Text.allBlank (span.slice text) = false) :
    (readTrimmed text span).map collapsed = some (collapsed (readPart text span)) := by
  rw [readTrimmed_of_visible h]
  simp only [Option.map_some, collapsed, readPart, String.toList_ofList, Text.collapse_trim]

/-! ## A function -/

/-- The position from one point to another. -/
def Position.between (first last : Point) : Position :=
  ⟨first.line, last.line, first.column, last.column⟩

theorem positionOf_eq_between {text : List Char} {span : Span} (hspan : span.start < span.stop)
    (hstop : span.stop ≤ text.length) :
    positionOf (LineIndex.ofText text) span =
      .between (Point.behind (text.take span.start))
        (Point.behind (text.take (span.stop - 1))) := by
  have hlast : max span.start (span.stop - 1) = span.stop - 1 := by omega
  rw [positionOf, hlast, LineIndex.pointAt_eq_behind (by omega),
    LineIndex.pointAt_eq_behind (by omega)]
  rfl

/-- What the chunks of a function tell of it: its name, where it stands from its first character
to its last brace, its visibility, parameters and return type. -/
structure Chunk.TellsOf (layout : FunctionLayout) (text : List Char) (chunk : Chunk) : Prop where
  name : chunk.name = some (String.ofList layout.name)
  position : chunk.position = .between (Point.behind (text.take layout.span.start))
    (Point.behind (text.take layout.bodySpan.stop))
  visibility : chunk.visibility =
    some (if layout.visibility.isSome then "public" else "private")
  parameters : chunk.parameters =
    some (splitParameters (readPart text layout.parametersSpan))
  returnType : chunk.returnType =
    some ((layout.returnsSpan.map fun span => collapsed (readPart text span)).getD "void")

section

variable {text : List Char} {layout : FunctionLayout}

theorem readPart_name (hmask : mask text = layout.text) :
    readPart text layout.nameSpan = String.ofList layout.name := by
  have hslice := layout.slice_name
  rw [← hmask] at hslice
  exact readPart_of_visible hslice fun hmem => absurd (layout.name_word _ hmem) (by decide)

theorem returns_read (hmask : mask text = layout.text) :
    (layout.returnsSpan.bind (readTrimmed text)).map collapsed =
      layout.returnsSpan.map fun span => collapsed (readPart text span) := by
  cases hreturns : layout.returns with
  | none => simp [FunctionLayout.returnsSpan, hreturns]
  | some type =>
      obtain ⟨span, hspan, hslice⟩ := layout.slice_returns hreturns
      rw [← hmask] at hslice
      rw [hspan, Option.bind_some, Option.map_some]
      exact collapsed_readTrimmed (allBlank_slice_of_mask (by rw [hslice]; exact type.visible))

end

/-- The chunks of functions in a text are the signature and the body of its one function, if its
mask consists of that function and white space, no other keyword of a function stands before a
name and a parenthesis, and no chunk is cut. -/
theorem chunks_of_function {limit : Limit} {file text : String} (layout : FunctionLayout)
    (hmask : mask text.toList = layout.text)
    (honly : ∀ keyword, FunctionHeaderAt (mask text.toList) keyword → keyword = layout.keyword)
    (hwhole : ∀ chunk ∈ chunkText limit file text, chunk.part = none) :
    ∃ signature body, (chunkText limit file text).filter (·.kind = .function) = [signature, body] ∧
      signature.role = some .signature ∧ body.role = some .body ∧
      (∀ chunk ∈ [signature, body], chunk.TellsOf layout text.toList) ∧
      body.content = String.ofList (Text.trim (layout.bodySpan.slice text.toList)) := by
  rw [hmask] at honly
  obtain ⟨qualifiers, hfunctions⟩ := layout.functions_text honly
  have hdeclared : declaredBy Locate.functions text.toList =
      [Declaration.read text.toList ⟨layout.span, .function layout.visibility.isSome layout.nameSpan
        ⟨qualifiers, layout.parametersSpan, layout.returnsSpan, layout.opening⟩⟩] := by
    rw [declaredBy, hmask, hfunctions]
    rfl
  have hchunks := filter_function hwhole
  rw [hdeclared, List.flatMap_singleton] at hchunks
  obtain ⟨hspan, hstop⟩ := layout.span_bounds
  rw [← hmask, mask_length] at hstop
  have hposition := positionOf_eq_between hspan hstop
  have hname := congrArg some (readPart_name hmask)
  have hreturns := congrArg (fun type => some (type.getD "void")) (returns_read hmask)
  refine ⟨_, _, hchunks, rfl, rfl, ?_, rfl⟩
  refine List.forall_mem_cons.mpr ⟨?_, List.forall_mem_singleton.mpr ?_⟩
  · exact ⟨hname, hposition, rfl, rfl, hreturns⟩
  · exact ⟨hname, hposition, rfl, rfl, hreturns⟩

/-- A public function with a comment in front. -/
def commentedFunction : String :=
  "// Adds.\npublic isolated function add(int a, int b) returns int|error \x7b\n  return a;\n\x7d\n"

/-- Its mask, in which the comment is white space. -/
def commentedLayout : FunctionLayout where
  lead := "        \n".toList
  visibility := some ⟨[' '], by decide, by decide⟩
  qualifiers := [⟨"isolated", by decide, [' '], by decide, by decide⟩]
  gap := ⟨[' '], by decide, by decide⟩
  name := "add".toList
  nameGap := []
  parameters := "int a, int b".toList
  parametersGap := [' ']
  returns := some
    { text := " int|error ".toList
      visible := by decide
      apart := by decide
      plain := by simp [IsPlain]
      complete := by
        rw [← List.reverse_reverse " int|error ".toList, ← endsInlineType_iff]
        decide }
  body := "\n  return a;\n".toList
  trail := ['\n']
  lead_blank := by decide
  name_nonempty := by decide
  name_word := List.all_eq_true.mp (by decide)
  nameGap_blank := by decide
  parameters_balanced := by decide
  parametersGap_blank := by decide
  body_balanced := by decide
  trail_blank := by decide

theorem chunks_of_function_commented :
    mask commentedFunction.toList = commentedLayout.text ∧
      (∀ keyword, FunctionHeaderAt (mask commentedFunction.toList) keyword →
        keyword = commentedLayout.keyword) ∧
      (∀ chunk ∈ chunkText .standard "a.bal" commentedFunction, chunk.part = none) ∧
      ∃ signature body,
        (chunkText .standard "a.bal" commentedFunction).filter (·.kind = .function) =
          [signature, body] ∧
        signature.role = some .signature ∧ body.role = some .body ∧
        (∀ chunk ∈ [signature, body], chunk.TellsOf commentedLayout commentedFunction.toList) ∧
        body.content =
          String.ofList (Text.trim (commentedLayout.bodySpan.slice commentedFunction.toList)) := by
  have hmask : mask commentedFunction.toList = commentedLayout.text := by decide +kernel
  have hwords : ∀ keyword < (mask commentedFunction.toList).length,
      "function".toList.isPrefixOf ((mask commentedFunction.toList).drop keyword) = true →
        keyword = commentedLayout.keyword := by
    decide +kernel
  have honly : ∀ keyword, FunctionHeaderAt (mask commentedFunction.toList) keyword →
      keyword = commentedLayout.keyword := by
    intro keyword hkeyword
    obtain ⟨hlt, hprefix⟩ := hkeyword.isPrefix
    exact hwords keyword hlt (List.isPrefixOf_iff_prefix.mpr hprefix)
  have hwhole : ∀ chunk ∈ chunkText .standard "a.bal" commentedFunction, chunk.part = none := by
    decide +kernel
  exact ⟨hmask, honly, hwhole, chunks_of_function commentedLayout hmask honly hwhole⟩

end SourceChunks
