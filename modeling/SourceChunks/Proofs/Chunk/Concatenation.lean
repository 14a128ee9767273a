import Mathlib
import SourceChunks.Chunk.Stream
import SourceChunks.Proofs.Chunk.Groups
import SourceChunks.Proofs.Declaration.Concatenation

/-!
# Chunks of two texts

What the chunks of a declaration hold is read from the text of the declaration, and where
they stand is told by lines and columns.  So the chunks of a self-contained text and of any
other text behind it are, group by group, the chunks of the one and the chunks of the other,
with the lines of the latter further on and with new identifiers.

* `Chunk.below`: the same chunk some lines further on.
* `chunksOf_append`, `chunksOf_shift`: the chunks of one declaration in two texts.
* `chunkText_eq`: a listing is put together from its groups.
* `chunks_of_concatenation`: what is found in two texts, and the chunks of both.
-/

namespace SourceChunks

/-- The same chunk some lines further on, with the identifier that it has there. -/
def Chunk.below (lines : Nat) (chunk : Chunk) : Chunk :=
  { chunk with
    position := { chunk.position with
      startLine := chunk.position.startLine + lines
      endLine := chunk.position.endLine + lines }
    id := chunkId chunk.file chunk.kind chunk.name (chunk.position.startLine + lines) }

/-! ## Positions -/

section

variable {text : List Char}

theorem positionOf_append (more : List Char) {span : Span} (hstart : span.start ≤ text.length)
    (hstop : span.stop ≤ text.length) :
    positionOf (LineIndex.ofText (text ++ more)) span =
      positionOf (LineIndex.ofText text) span := by
  rw [positionOf, positionOf, LineIndex.pointAt_append_left more hstart,
    LineIndex.pointAt_append_left more (by omega)]

theorem positionOf_shift (hline : text.getLast? = some '\n') (more : List Char) (span : Span) :
    positionOf (LineIndex.ofText (text ++ more)) (span.shift text.length) =
      { positionOf (LineIndex.ofText more) span with
        startLine := (positionOf (LineIndex.ofText more) span).startLine + text.count '\n'
        endLine := (positionOf (LineIndex.ofText more) span).endLine + text.count '\n' } := by
  have hlast : max (span.start + text.length) (span.stop + text.length - 1) =
      max span.start (span.stop - 1) + text.length := by omega
  show positionOf _ ⟨span.start + text.length, span.stop + text.length⟩ = _
  rw [positionOf]
  simp only
  rw [hlast, LineIndex.pointAt_append_right hline, LineIndex.pointAt_append_right hline]
  simp only [positionOf, Nat.cast_add]

/-! ## The chunks of a declaration -/

/-- The chunks of a declaration do not depend on what follows its text. -/
theorem chunksOf_append (file : String) (more : List Char) {d : Declaration Span}
    (h : d.Within text.length) :
    chunksOf file (text ++ more) (LineIndex.ofText (text ++ more)) (d.read text) =
      chunksOf file text (LineIndex.ofText text) (d.read text) := by
  -- Positions, texts and bodies are all told from places within the text.
  have hbare : bareChunk file (LineIndex.ofText (text ++ more)) (d.read text) =
      bareChunk file (LineIndex.ofText text) (d.read text) := by
    funext content
    show bareChunk file _ ⟨d.span, _⟩ content = bareChunk file _ ⟨d.span, _⟩ content
    rw [bareChunk, bareChunk, positionOf_append more h.start h.stop]
  have hwhole : readPart (text ++ more) d.span = readPart text d.span :=
    readPart_congr (Span.slice_append more d.span h.stop)
  have hbody : bodyOf (text ++ more) (d.read text) = bodyOf text (d.read text) := by
    rw [bodyOf, bodyOf, Declaration.body?, Option.map_map, Option.map_map]
    refine congrArg (Option.getD · []) (Option.map_congr fun opening _ => ?_)
    exact Span.slice_append more _ ((Nat.sub_le _ _).trans h.stop)
  have hheader : headerOf (text ++ more) (d.read text) = headerOf text (d.read text) := by
    rw [headerOf, headerOf, Declaration.read_headerEnd]
    refine congrArg (Option.getD · "") (Option.map_congr fun opening hopening => ?_)
    exact readPart_congr (Span.slice_append more _ (h.opening opening hopening))
  rw [chunksOf_eq, chunksOf_eq, hbare, hbody, hheader]
  show chunksWith _ (readPart (text ++ more) d.span) _ _ _ = _
  rw [hwhole]
  rfl

/-! ## Further on -/

@[simp] theorem Callable.shift_id (n : Nat) (callable : Callable String) :
    callable.shift id n = { callable with opening := callable.opening + n } := by
  rw [shift, List.map_id, Option.map_id]
  rfl

@[simp] theorem Service.shift_id (n : Nat) (service : Service String) :
    service.shift id n = { service with opening := service.opening + n } := by
  rw [shift, Option.map_id]
  rfl

@[simp] theorem Declaration.name_shift (n : Nat) (d : Declaration String) :
    (d.shift id n).name? = d.name? := by
  obtain ⟨span, shape⟩ := d
  cases shape with
  | service header => 
      show some (header.shift id n).name = some header.name
      rw [Service.shift_id]
      rfl
  | _ => rfl

/-- A shape further on has the chunks of that shape further on. -/
theorem chunksWith_shift (n lines : Nat) {bare bare' : String → Chunk}
    (hbare : ∀ content, bare' content = (bare content).below lines) (whole : String)
    (body : List Char) (header : String) (shape : Shape String) :
    chunksWith bare' whole body header (shape.shift id n) =
      (chunksWith bare whole body header shape).map (·.below lines) := by
  obtain rfl : bare' = fun content => (bare content).below lines := funext hbare
  cases shape with
  | service header => rw [Shape.shift, Service.shift_id]; rfl
  | function isPublic name callable => rw [Shape.shift, Callable.shift_id]; rfl
  | resource owner method path callable =>
      rw [Shape.shift, Callable.shift_id, Service.shift_id]
      rfl
  | constant isPublic type name => rw [Shape.shift, Option.map_id]; rfl
  | _ => rfl

@[simp] theorem bodyOf_shift (front text : List Char) (d : Declaration String) :
    bodyOf (front ++ text) (d.shift id front.length) = bodyOf text d := by
  rw [bodyOf, bodyOf, Declaration.body?, Declaration.body?, Declaration.shift_headerEnd,
    Option.map_map, Option.map_map, Option.map_map]
  refine congrArg (Option.getD · []) (Option.map_congr fun opening _ => ?_)
  show Span.slice ⟨opening + front.length + 1, d.span.stop + front.length - 1⟩ (front ++ text) = _
  have hstart : opening + front.length + 1 = opening + 1 + front.length := by omega
  have hcount : d.span.stop + front.length - 1 - (opening + 1 + front.length) =
      d.span.stop - 1 - (opening + 1) := by omega
  rw [Span.slice, hstart, drop_shift, hcount]
  rfl

@[simp] theorem headerOf_shift (front text : List Char) (d : Declaration String) :
    headerOf (front ++ text) (d.shift id front.length) = headerOf text d := by
  rw [headerOf, headerOf, Declaration.shift_headerEnd, Option.map_map]
  refine congrArg (Option.getD · "") (Option.map_congr fun opening _ => ?_)
  exact readPart_shift front text ⟨d.span.start, opening⟩

/-- The chunks of a declaration further on. -/
theorem chunksOf_shift (hline : text.getLast? = some '\n') (file : String) (more : List Char)
    (d : Declaration String) :
    chunksOf file (text ++ more) (LineIndex.ofText (text ++ more)) (d.shift id text.length) =
      (chunksOf file more (LineIndex.ofText more) d).map (·.below (text.count '\n')) := by
  have hbare : ∀ content,
      bareChunk file (LineIndex.ofText (text ++ more)) (d.shift id text.length) content =
        (bareChunk file (LineIndex.ofText more) d content).below (text.count '\n') := by
    intro content
    have hspan : (d.shift id text.length).span = d.span.shift text.length := rfl
    simp only [bareChunk, Chunk.below, Declaration.name_shift, Declaration.shift_kind, hspan,
      positionOf_shift hline more d.span]
  have hwhole : readPart (text ++ more) (d.shift id text.length).span = readPart more d.span :=
    readPart_shift text more d.span
  rw [chunksOf_eq, chunksOf_eq, bodyOf_shift, headerOf_shift, hwhole]
  exact chunksWith_shift text.length (text.count '\n') hbare _ _ _ d.shape

end

/-! ## Bounded chunks -/

@[simp] theorem partsOf_below (lines : Nat) (chunk : Chunk) (texts : List String) :
    partsOf (chunk.below lines) texts = (partsOf chunk texts).map (·.below lines) := by
  rw [partsOf, partsOf, List.map_map]
  rfl

@[simp] theorem bound_below (limit : Limit) (lines : Nat) (chunk : Chunk) :
    bound limit (chunk.below lines) = (bound limit chunk).map (·.below lines) := by
  have hcontent : (chunk.below lines).content = chunk.content := rfl
  rw [bound, bound, hcontent]
  split_ifs
  · rfl
  · exact partsOf_below lines chunk _

/-! ## Groups -/

/-- The chunks of the declarations of one group. -/
def groupChunks (limit : Limit) (file text : String) (group : Kind) : List Chunk :=
  ((declaredBy (Locate.ofGroup group) text.toList).flatMap
    (chunksOf file text.toList (LineIndex.ofText text.toList))).flatMap (bound limit)

/-- A listing is put together from its groups. -/
theorem chunkText_eq (limit : Limit) (file text : String) :
    chunkText limit file text = Kind.groups.flatMap (groupChunks limit file text) := by
  rw [chunkText, wholeChunks, declarationsOf, Locate.all_eq, declarations, List.filterMap_flatMap,
    List.map_flatMap, List.flatMap_assoc, List.flatMap_assoc]
  refine List.flatMap_congr fun group _ => ?_
  rw [groupChunks, List.flatMap_assoc]
  rfl

theorem group_of_mem_groupChunks {limit : Limit} {file text : String} {group : Kind}
    {chunk : Chunk} (h : chunk ∈ groupChunks limit file text group) :
    chunk.kind.group = group.group := by
  obtain ⟨whole, hwhole, hpart⟩ := List.mem_flatMap.mp h
  obtain ⟨d, hd, hchunk⟩ := List.mem_flatMap.mp hwhole
  obtain ⟨found, hfound, rfl⟩ := List.mem_map.mp hd
  rw [(describes_of_mem_bound hchunk hpart).kind, Declaration.read_kind]
  exact (Locate.finds_ofGroup group _ found hfound).1

/-- The chunks of a listing that are of one group are those that its search lists. -/
theorem filter_chunkText (limit : Limit) (file text : String) {group : Kind}
    (hgroup : group ∈ Kind.groups) :
    (chunkText limit file text).filter (·.kind.group = group) = groupChunks limit file text group := by
  -- Of the chunks of another group none is left, and of this group all are.
  have hsame : ∀ other ∈ Kind.groups,
      (groupChunks limit file text other).filter (·.kind.group = group) =
        if other = group then groupChunks limit file text other else [] := by
    intro other hother
    have hself : other.group = other := by
      revert hother
      cases other <;> decide
    split_ifs with heq
    · rw [List.filter_eq_self]
      intro chunk hchunk
      rw [group_of_mem_groupChunks hchunk, hself, heq, decide_eq_true_eq]
    · rw [List.filter_eq_nil_iff]
      intro chunk hchunk
      rw [group_of_mem_groupChunks hchunk, hself, decide_eq_true_eq]
      exact heq
  rw [chunkText_eq, List.filter_flatMap, List.flatMap_congr hsame]
  revert hgroup
  cases group <;> simp [Kind.groups]

/-- The chunks of a group in two texts. -/
theorem groupChunks_append {first : String} (h : SelfContained first.toList) (limit : Limit)
    (file second : String) (group : Kind) :
    groupChunks limit file (first ++ second) group =
      groupChunks limit file first group ++
        (groupChunks limit file second group).map (·.below (first.toList.count '\n')) := by
  have hwithin : ∀ d ∈ declarations (Locate.ofGroup group (mask first.toList)),
      d.Within first.toList.length := by
    intro d hd
    rw [← mask_length first.toList]
    exact (Locate.finds_ofGroup group _ d hd).2
  rw [groupChunks, groupChunks, groupChunks, String.toList_append, declaredBy_ofGroup_append h,
    List.flatMap_append, List.flatMap_append, List.map_flatMap, List.flatMap_map]
  -- The declarations of the first text lie within it, and those of the second are shifted.
  congr 1
  · congr 1
    rw [declaredBy, List.flatMap_map, List.flatMap_map]
    exact List.flatMap_congr fun d hd => chunksOf_append file second.toList (hwithin d hd)
  · simp only [chunksOf_shift h.line, ← bound_below]
    rw [← List.map_flatMap, List.flatMap_map]

/-! ## Concatenation -/

/-- Behind a self-contained text, any other text is scanned as if it stood alone, and the
self-contained text as if nothing followed it: each kind of declaration is found in both
texts where it is found in either, with all offsets of the second shifted by the length of
the first; so are the resources of each service; and a listing of both has, group by group,
the chunks of the first and then those of the second, with lines further on by the number
of lines of the first and identifiers made anew. -/
theorem chunks_of_concatenation {first : String} (h : SelfContained first.toList)
    (second : String) :
    (∀ kind, found (first ++ second).toList kind =
      found first.toList kind ++ (found second.toList kind).map (·.shift id first.length)) ∧
    foundByService (first ++ second).toList =
      foundByService first.toList ++
        (foundByService second.toList).map (·.map (·.shift id first.length)) ∧
    ∀ limit file, chunkText limit file (first ++ second) =
      Kind.groups.flatMap fun group =>
        (chunkText limit file first).filter (·.kind.group = group) ++
          ((chunkText limit file second).filter (·.kind.group = group)).map
            (·.below (first.toList.count '\n')) := by
  rw [String.toList_append, ← String.length_toList]
  refine ⟨found_append h second.toList, foundByService_append h second.toList,
    fun limit file => ?_⟩
  rw [chunkText_eq]
  refine List.flatMap_congr fun group hgroup => ?_
  rw [filter_chunkText limit file first hgroup, filter_chunkText limit file second hgroup,
    groupChunks_append h]

/-- A variable in front of a service that is never closed. -/
theorem chunks_of_concatenation_unclosed :
    SelfContained "int[] a = f();\n".toList ∧
      ∀ limit file, chunkText limit file ("int[] a = f();\n" ++ "service /a \x7b )") =
        Kind.groups.flatMap fun group =>
          (chunkText limit file "int[] a = f();\n").filter (·.kind.group = group) ++
            ((chunkText limit file "service /a \x7b )").filter (·.kind.group = group)).map
              (·.below 1) := by
  have h : SelfContained "int[] a = f();\n".toList :=
    ⟨by decide, ⟨true, by decide⟩, by decide, by decide, by decide, by decide⟩
  exact ⟨h, (chunks_of_concatenation h "service /a \x7b )").2.2⟩

end SourceChunks
