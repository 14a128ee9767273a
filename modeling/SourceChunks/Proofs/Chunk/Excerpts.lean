import Mathlib
import SourceChunks.Proofs.Chunk.Bounding
import SourceChunks.Proofs.Chunk.Totality
import SourceChunks.Proofs.Declaration.Values
import SourceChunks.Proofs.Source.Offsets

/-!
# Texts of chunks at their positions

What stands from the first point of a chunk to the last one is its declaration, as it is in the
text with its comments and literals, and a chunk that is given as it stands has that for its
content.

* `Position.excerpt?`: what stands from one point to another one.
* `contents_at_positions`: the contents of chunks, by their positions.
-/

namespace SourceChunks

/-! ## Excerpts -/

/-- What stands in a text from one point to another one, with the characters at both. -/
def Position.excerpt? (text : List Char) (p : Position) : Option (List Char) := do
  let first ← Point.offset? text ⟨p.startLine.toNat, p.startColumn.toNat⟩
  let last ← Point.offset? text ⟨p.endLine.toNat, p.endColumn.toNat⟩
  return Span.slice ⟨first, last + 1⟩ text

/-- What stands at the position of a stretch is the stretch. -/
theorem excerpt?_positionOf {text : List Char} {span : Span} (hspan : span.start < span.stop)
    (hstop : span.stop ≤ text.length) :
    (positionOf (LineIndex.ofText text) span).excerpt? text = some (span.slice text) := by
  have hlast : max span.start (span.stop - 1) = span.stop - 1 := by omega
  have hstretch : Span.mk span.start (span.stop - 1 + 1) = span := by
    rw [Nat.sub_add_cancel (by omega)]
  simp only [Position.excerpt?, positionOf, hlast, Int.toNat_natCast]
  rw [offset?_pointAt (by omega), offset?_pointAt (by omega), Option.bind_eq_bind,
    Option.bind_some, Option.bind_some, hstretch]
  rfl

/-- The last character of a stretch. -/
theorem getLast?_slice {text : List Char} {span : Span} {c : Char} (hspan : span.start < span.stop)
    (h : text[span.stop - 1]? = some c) : (span.slice text).getLast? = some c := by
  have hlast : span = ⟨span.start, span.stop - 1 + 1⟩ := by
    rw [Nat.sub_add_cancel (by omega)]
  have hle : span.start ≤ span.stop - 1 := by omega
  rw [hlast, Span.slice_split hle (Nat.le_succ _), Span.slice_singleton h, List.getLast?_concat]

/-! ## Contents -/

section

variable {file : String} {text : List Char} {index : LineIndex} {d : Declaration String}
  {chunk : Chunk}

/-- The content of a chunk, by its kind and role: a function or resource has its body for the
content of one of its chunks, and any declaration but these and services is given as it
stands. -/
theorem content_of_mem_chunksOf (h : chunk ∈ chunksOf file text index d) :
    (d.kind ∉ [Kind.function, .service, .resource] → chunk.content = readPart text d.span) ∧
      (chunk.role = some .body → d.kind ∈ [Kind.function, .service, .resource] ∧
        chunk.content = String.ofList (Text.trim (bodyOf text d))) := by
  rw [chunksOf_eq] at h
  obtain ⟨span, shape⟩ := d
  cases shape with
  | function isPublic name callable =>
      have hkind : Kind.function ∈ [Kind.function, .service, .resource] := by decide
      refine ⟨fun hnot => absurd hkind hnot, fun hrole => ⟨hkind, ?_⟩⟩
      rcases List.mem_pair.mp h with rfl | rfl
      · exact nomatch Option.some.inj hrole
      · rfl
  | resource owner method path callable =>
      have hkind : Kind.resource ∈ [Kind.function, .service, .resource] := by decide
      refine ⟨fun hnot => absurd hkind hnot, fun hrole => ⟨hkind, ?_⟩⟩
      rcases List.mem_pair.mp h with rfl | rfl
      · exact nomatch Option.some.inj hrole
      · rfl
  | service header =>
      obtain rfl := List.mem_singleton.mp h
      have hkind : Kind.service ∈ [Kind.function, .service, .resource] := by decide
      exact ⟨fun hnot => absurd hkind hnot, fun hrole => nomatch hrole⟩
  | _ =>
      obtain rfl := List.mem_singleton.mp h
      exact ⟨fun _ => rfl, fun hrole => nomatch hrole⟩

/-- The text of a body, without the white space around it, stands in its declaration. -/
theorem infix_of_body {opening : Nat} (h : EndsWithBlock text opening d) :
    Text.trim (bodyOf text d) <:+: d.span.slice text := by
  have hstart := h.start_lt
  have hstop := h.encloses.bounds.1
  have hbody : bodyOf text d = Span.slice ⟨opening + 1, d.span.stop - 1⟩ text := by
    rw [bodyOf, h.body]
    rfl
  have hfront : d.span.slice text = Span.slice ⟨d.span.start, opening + 1⟩ text ++
      Span.slice ⟨opening + 1, d.span.stop⟩ text := by
    apply Span.slice_split
    · exact hstart.le.trans (Nat.le_succ opening)
    · exact h.lt_stop
  have hbehind : Span.slice ⟨opening + 1, d.span.stop⟩ text = bodyOf text d ++
      Span.slice ⟨d.span.stop - 1, d.span.stop⟩ text := by
    rw [hbody]
    exact Span.slice_split (by omega) (by omega) text
  have hinside : bodyOf text d <:+: d.span.slice text := by
    rw [hfront, hbehind, ← List.append_assoc]
    exact List.infix_append _ _ _
  obtain ⟨front, behind, htrim, -, -⟩ := Text.exists_trim (bodyOf text d)
  exact List.IsInfix.trans ⟨front, behind, htrim.symm⟩ hinside

end

/-- The position of a chunk tells where its content stands.  If no chunk of a text is cut, what
stands from the first point of a chunk to the last one is the content of any chunk but those of
functions, services and resources; for these it ends with a brace, and the body of a function or
resource is a contiguous part of it. -/
theorem contents_at_positions {limit : Limit} {file text : String}
    (h : ∀ chunk ∈ chunkText limit file text, chunk.part = none) :
    ∀ chunk ∈ chunkText limit file text,
      ∃ excerpt, chunk.position.excerpt? text.toList = some excerpt ∧
        (chunk.kind ∉ [Kind.function, .service, .resource] → chunk.content.toList = excerpt) ∧
        (chunk.kind ∈ [Kind.function, .service, .resource] → excerpt.getLast? = some '}') ∧
        (chunk.role = some .body → chunk.content.toList <:+: excerpt) := by
  rw [chunkText_of_unnumbered h]
  intro chunk hchunk
  obtain ⟨d, hd, hmem⟩ := List.mem_flatMap.mp hchunk
  obtain ⟨kind, hfound⟩ := exists_found_of_mem_declarationsOf hd
  have hspan := start_lt_stop_of_mem_found hfound
  have hdescribes := describes_of_mem_chunksOf hmem
  obtain ⟨hplain, hbody⟩ := content_of_mem_chunksOf hmem
  have hblock : d.kind ∈ [Kind.function, .service, .resource] →
      ∃ opening, EndsWithBlock text.toList opening d := by
    intro hkind
    rw [kind_of_mem_found hfound] at hkind
    exact exists_endsWithBlock hkind hfound
  rw [hdescribes.position, hdescribes.kind]
  refine ⟨d.span.slice text.toList, excerpt?_positionOf hspan (stop_le_of_mem_found hfound),
    fun hkind => ?_, fun hkind => ?_, fun hrole => ?_⟩
  · rw [hplain hkind, readPart, String.toList_ofList]
  · obtain ⟨opening, hends⟩ := hblock hkind
    exact getLast?_slice hspan hends.closes
  · obtain ⟨hkind, hcontent⟩ := hbody hrole
    obtain ⟨opening, hends⟩ := hblock hkind
    rw [hcontent, String.toList_ofList]
    exact infix_of_body hends

/-- A constant that is written on two lines with a carriage return between them, and a function
behind a tab. -/
def twoLines : String :=
  "import a/b;\nconst int SIZE =\r\n  4;\n\tfunction f() \x7b\r\n  g(\"\x7d\");\r\n\x7d"

theorem contents_at_positions_twoLines :
    (∀ chunk ∈ chunkText .standard "a.bal" twoLines, chunk.part = none) ∧
      ∀ chunk ∈ chunkText .standard "a.bal" twoLines,
        ∃ excerpt, chunk.position.excerpt? twoLines.toList = some excerpt ∧
          (chunk.kind ∉ [Kind.function, .service, .resource] → chunk.content.toList = excerpt) ∧
          (chunk.kind ∈ [Kind.function, .service, .resource] → excerpt.getLast? = some '}') ∧
          (chunk.role = some .body → chunk.content.toList <:+: excerpt) := by
  have hwhole : ∀ chunk ∈ chunkText .standard "a.bal" twoLines, chunk.part = none := by
    decide +kernel
  exact ⟨hwhole, contents_at_positions hwhole⟩

end SourceChunks
