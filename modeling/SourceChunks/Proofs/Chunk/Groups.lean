import Mathlib
import SourceChunks.Chunk.Stream
import SourceChunks.Proofs.Chunk.Positions

/-!
# The chunks of one declaration

All chunks of a declaration tell the same of it: its kind, name and position, the file, and an
identifier that is made of these.  A function or resource has two of them, which differ in
their text only; any other declaration has one.  A chunk that is cut into parts leaves all
that it tells to each of them.

* `chunksWith`: the chunks of a declaration, put together from the texts that they hold.
* `Chunk.Describes`: what a chunk tells of its declaration.
* `IsGroup`: the chunks of one declaration.
* `Chunk.IsPieceOf`: what the parts of a chunk have in common with it.
* `chunkText_eq_flatMap`: a listing is put together from the chunks of its declarations.
-/

namespace SourceChunks

/-! ## The texts of a declaration -/

/-- The chunks of a shape, put together from the texts that they hold: that of the whole
declaration, that of its body and that of its header. -/
def chunksWith (bare : String → Chunk) (whole : String) (body : List Char) (header : String) :
    Shape String → List Chunk
  | .importClause => [bare whole]
  | .configurable isPublic type _ =>
      [{ bare whole with visibility := some (visibilityWord isPublic), variableType := some type }]
  | .moduleVariable type _ => [{ bare whole with variableType := some type }]
  | .typeDefinition isPublic _ => [{ bare whole with visibility := some (visibilityWord isPublic) }]
  | .function isPublic name callable =>
      callableChunks bare (functionSignature isPublic callable.qualifiers name
        (splitParameters callable.parameters) callable.returns) body callable fun chunk =>
          { chunk with visibility := some (visibilityWord isPublic) }
  | .service service =>
      [{ bare (collapsed header) with path := some service.route, listener := service.listener }]
  | .resource owner method path callable =>
      callableChunks bare (resourceSignature callable.qualifiers method path
        (splitParameters callable.parameters) callable.returns) body callable fun chunk =>
          { chunk with
            httpMethod := some method
            resourcePath := some path
            fullPath := some (SourceChunks.fullPath owner.route path)
            servicePath := some owner.name
            serviceListener := owner.listener }
  | .classDefinition isPublic _ => [{ bare whole with visibility := some (visibilityWord isPublic) }]
  | .constant isPublic type _ =>
      [{ bare whole with visibility := some (visibilityWord isPublic), variableType := type }]

/-- The text of a body. -/
def bodyOf (text : List Char) (d : Declaration String) : List Char :=
  (d.body?.map (·.slice text)).getD []

/-- The text of a header that opens a body. -/
def headerOf (text : List Char) (d : Declaration String) : String :=
  (d.headerEnd?.map fun opening => readPart text ⟨d.span.start, opening⟩).getD ""

theorem chunksOf_eq (file : String) (text : List Char) (index : LineIndex) (d : Declaration String) :
    chunksOf file text index d =
      chunksWith (bareChunk file index d) (readPart text d.span) (bodyOf text d) (headerOf text d)
        d.shape := by
  obtain ⟨span, shape⟩ := d
  cases shape <;> rfl

/-! ## What a chunk tells -/

/-- What every chunk of a declaration in a file tells of it. -/
structure Chunk.Describes (chunk : Chunk) (file : String) (index : LineIndex)
    (d : Declaration String) : Prop where
  kind : chunk.kind = d.kind
  name : chunk.name = d.name?
  file : chunk.file = file
  position : chunk.position = positionOf index d.span
  id : chunk.id = chunkId chunk.file chunk.kind chunk.name chunk.position.startLine
  hash : chunk.contentHash = SourceChunks.contentHash chunk.content

/-- A chunk is not a part of another one. -/
def Chunk.IsWhole (chunk : Chunk) : Prop :=
  chunk.part = none ∧ chunk.partCount = none

section

variable {file : String} {text : List Char} {index : LineIndex} {d : Declaration String}
  {chunk : Chunk}

/-- A chunk without what depends on the kind. -/
def Chunk.withoutDetails (chunk : Chunk) : Chunk where
  kind := chunk.kind
  name := chunk.name
  content := chunk.content
  position := chunk.position
  file := chunk.file
  id := chunk.id
  contentHash := chunk.contentHash
  part := chunk.part
  partCount := chunk.partCount

/-- The chunks of a declaration add details to bare chunks, and change nothing in them. -/
theorem withoutDetails_of_mem_chunksOf (h : chunk ∈ chunksOf file text index d) :
    chunk.withoutDetails = bareChunk file index d chunk.content := by
  rw [chunksOf_eq] at h
  obtain ⟨span, shape⟩ := d
  cases shape with
  | function isPublic name callable =>
      rcases List.mem_pair.mp h with rfl | rfl
      · rfl
      · rfl
  | resource owner method path callable =>
      rcases List.mem_pair.mp h with rfl | rfl
      · rfl
      · rfl
  | _ => rw [List.mem_singleton.mp h]; rfl

theorem describes_of_mem_chunksOf (h : chunk ∈ chunksOf file text index d) :
    chunk.Describes file index d := by
  have hbare := withoutDetails_of_mem_chunksOf h
  have hkind : chunk.kind = d.kind := congrArg Chunk.kind hbare
  have hname : chunk.name = d.name? := congrArg Chunk.name hbare
  have hfile : chunk.file = file := congrArg Chunk.file hbare
  have hposition : chunk.position = positionOf index d.span := congrArg Chunk.position hbare
  refine ⟨hkind, hname, hfile, hposition, ?_, congrArg Chunk.contentHash hbare⟩
  rw [hkind, hname, hfile, hposition]
  exact congrArg Chunk.id hbare

theorem isWhole_of_mem_chunksOf (h : chunk ∈ chunksOf file text index d) : chunk.IsWhole := by
  have hbare := withoutDetails_of_mem_chunksOf h
  exact ⟨congrArg Chunk.part hbare, congrArg Chunk.partCount hbare⟩

end

/-! ## Groups -/

/-- The chunks of one declaration of a kind: the signature and the body of a function or
resource, which tell the same and differ in their text only, or a chunk alone. -/
def IsGroup (kind : Kind) (chunks : List Chunk) : Prop :=
  if kind = .function ∨ kind = .resource then
    ∃ signature content, signature.role = some .signature ∧
      chunks = [signature, { signature with
        role := some .body
        content := content
        contentHash := contentHash content }]
  else ∃ chunk, chunk.role = none ∧ chunks = [chunk]

theorem isGroup_chunksOf (file : String) (text : List Char) (index : LineIndex)
    (d : Declaration String) : IsGroup d.kind (chunksOf file text index d) := by
  rw [chunksOf_eq]
  obtain ⟨span, shape⟩ := d
  cases shape with
  | function isPublic name callable => exact ⟨_, _, rfl, rfl⟩
  | resource owner method path callable => exact ⟨_, _, rfl, rfl⟩
  | _ => exact ⟨_, rfl, rfl⟩

/-! ## Parts -/

section

variable {limit : Limit} {piece chunk : Chunk}

/-- A piece of a chunk has a text of its own, and all else from the chunk. -/
def Chunk.IsPieceOf (piece chunk : Chunk) : Prop :=
  piece = { chunk with
    content := piece.content
    contentHash := SourceChunks.contentHash piece.content
    part := piece.part
    partCount := piece.partCount }

theorem isPieceOf_of_mem_bound (hhash : chunk.contentHash = contentHash chunk.content)
    (h : piece ∈ bound limit chunk) : piece.IsPieceOf chunk := by
  rw [bound] at h
  split_ifs at h
  · rw [List.mem_singleton.mp h, Chunk.IsPieceOf, ← hhash]
  · obtain ⟨numbered, -, rfl⟩ := List.mem_map.mp h
    rfl

/-- What a chunk tells of its declaration, its pieces tell as well. -/
theorem Chunk.Describes.of_isPieceOf {file : String} {index : LineIndex} {d : Declaration String}
    (h : chunk.Describes file index d) (hpiece : piece.IsPieceOf chunk) :
    piece.Describes file index d := by
  rw [hpiece]
  exact ⟨h.kind, h.name, h.file, h.position, h.id, rfl⟩

/-- The chunks of a declaration and their parts tell of it. -/
theorem describes_of_mem_bound {file : String} {text : List Char} {index : LineIndex}
    {d : Declaration String} (h : chunk ∈ chunksOf file text index d)
    (hpiece : piece ∈ bound limit chunk) : piece.Describes file index d := by
  have hchunk := describes_of_mem_chunksOf h
  exact hchunk.of_isPieceOf (isPieceOf_of_mem_bound hchunk.hash hpiece)

end

/-! ## Listings -/

section

variable {limit : Limit} {file : String} {text : List Char} {piece : Chunk}

/-- The chunks of a declaration within a limit. -/
def boundedChunks (limit : Limit) (file : String) (text : List Char) (d : Declaration String) :
    List Chunk :=
  (chunksOf file text (LineIndex.ofText text) d).flatMap (bound limit)

theorem chunkText_eq_flatMap (limit : Limit) (file text : String) :
    chunkText limit file text =
      (declarationsOf text.toList).flatMap (boundedChunks limit file text.toList) := by
  unfold chunkText wholeChunks
  exact List.flatMap_assoc

theorem describes_of_mem_boundedChunks {d : Declaration String}
    (h : piece ∈ boundedChunks limit file text d) :
    piece.Describes file (LineIndex.ofText text) d := by
  obtain ⟨chunk, hchunk, hpiece⟩ := List.mem_flatMap.mp h
  exact describes_of_mem_bound hchunk hpiece

end

end SourceChunks
