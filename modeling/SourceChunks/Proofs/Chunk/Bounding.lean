import Mathlib
import SourceChunks.Chunk.Stream
import SourceChunks.Proofs.Chunk.Groups

/-!
# Bounded chunks can be put together again

A chunk that is longer than a limit is cut into parts which are numbered, and which tell how
many they are.  Read from left to right, a listing of chunks and parts tells which parts belong
together, so the chunks can be read from it as they were before they were cut.

* `CutAt`: the pieces of a text; `cutAt_stretches`: the stretches of a text are such pieces.
* `PartsAt`, `BoundedAt`: the parts of a chunk, and what becomes of a chunk at a limit.
* `reassembleFrom`: the chunks that a listing was cut from.
* `bound_loses_nothing`: a listing at any limit is cut from one that has no parts, piece by
  piece, and gives it back.
-/

namespace SourceChunks

/-! ## Pieces of a text -/

/-- A text is cut into pieces of a size, of which the last one may be shorter. -/
structure CutAt (size : Nat) (text : List Char) (pieces : List (List Char)) : Prop where
  count : pieces.length = text.length ⌈/⌉ size
  joined : pieces.flatten = text
  nonempty : ∀ piece ∈ pieces, piece ≠ []
  full : ∀ piece ∈ pieces.dropLast, piece.length = size
  short : ∀ piece ∈ pieces, piece.length ≤ size

/-- Behind the first piece there is one piece less. -/
theorem ceilDiv_eq_succ {n size : Nat} (hsize : 0 < size) (hn : 0 < n) :
    n ⌈/⌉ size = (n - size) ⌈/⌉ size + 1 := by
  rw [Nat.ceilDiv_eq_add_pred_div, Nat.ceilDiv_eq_add_pred_div]
  by_cases hle : n ≤ size
  · have hone : (n + size - 1) / size = 1 := Nat.div_eq_of_lt_le (by omega) (by omega)
    have hzero : (n - size + size - 1) / size = 0 := Nat.div_eq_of_lt (by omega)
    rw [hone, hzero]
  · rw [← Nat.add_div_right _ hsize]
    congr 1
    omega

theorem CutAt.nil (size : Nat) : CutAt size [] [] := by
  constructor <;> simp

/-- A text is its first piece, and then the pieces of the rest. -/
theorem CutAt.cons {size : Nat} (hsize : 0 < size) {text : List Char} (htext : text ≠ [])
    {pieces : List (List Char)} (h : CutAt size (text.drop size) pieces) :
    CutAt size text (text.take size :: pieces) := by
  have hpos : 0 < text.length := List.length_pos_of_ne_nil htext
  have hcount := h.count
  rw [List.length_drop] at hcount
  constructor
  · rw [List.length_cons, hcount, ← ceilDiv_eq_succ hsize hpos]
  · rw [List.flatten_cons, h.joined, List.take_append_drop]
  · intro piece hpiece
    rcases List.mem_cons.mp hpiece with rfl | hpiece
    · simp [htext, hsize.ne']
    · exact h.nonempty piece hpiece
  · intro piece hpiece
    -- The first piece is full if there is a rest.
    by_cases hlast : pieces = []
    · simp [hlast] at hpiece
    · rw [List.dropLast_cons_of_ne_nil hlast] at hpiece
      rcases List.mem_cons.mp hpiece with rfl | hpiece
      · have hrest : text.length - size ≠ 0 := by
          intro hzero
          rw [hzero, zero_ceilDiv] at hcount
          exact hlast (List.length_eq_zero_iff.mp hcount)
        rw [List.length_take]
        omega
      · exact h.full piece hpiece
  · intro piece hpiece
    rcases List.mem_cons.mp hpiece with rfl | hpiece
    · exact List.length_take_le _ _
    · exact h.short piece hpiece

theorem cutAt_stretches {size : Nat} (hsize : 0 < size) {fuel : Nat} {text : List Char}
    (hfuel : text.length ≤ fuel) : CutAt size text (stretches size fuel text) := by
  induction fuel generalizing text with
  | zero =>
      obtain rfl := List.length_eq_zero_iff.mp (Nat.le_zero.mp hfuel)
      exact .nil size
  | succ fuel ih =>
      unfold stretches
      split_ifs with hnil
      · rw [List.isEmpty_iff.mp hnil]
        exact .nil size
      · rw [List.isEmpty_iff] at hnil
        apply CutAt.cons hsize hnil
        apply ih
        rw [List.length_drop]
        omega

/-! ## Parts of a chunk -/

/-- The part of a chunk that has a number of others before it. -/
def partOf (chunk : Chunk) (count before : Nat) (text : String) : Chunk :=
  { chunk with
    content := text
    contentHash := contentHash text
    part := some (before + 1 : Nat)
    partCount := some (count : Nat) }

theorem partsOf_eq (chunk : Chunk) (texts : List String) :
    partsOf chunk texts = texts.zipIdx.map fun numbered =>
      partOf chunk texts.length numbered.2 numbered.1 :=
  rfl

/-- The parts of a chunk that is cut at a limit: they are numbered from one, and tell their
number; their texts are pieces of that of the chunk, and all else is as in the chunk. -/
structure PartsAt (limit : Limit) (chunk : Chunk) (parts : List Chunk) : Prop where
  count : parts.length = chunk.content.length ⌈/⌉ limit.size
  joined : String.join (parts.map (·.content)) = chunk.content
  nonempty : ∀ part ∈ parts, part.content ≠ ""
  full : ∀ part ∈ parts.dropLast, part.content.length = limit.size
  short : ∀ part ∈ parts, part.content.length ≤ limit.size
  numbered : ∀ (i : Nat) (part : Chunk), parts[i]? = some part →
    part = { chunk with
      content := part.content
      contentHash := contentHash part.content
      part := some (i + 1 : Nat)
      partCount := some (parts.length : Nat) }

/-- What becomes of a chunk at a limit: it stays as it is, or it is cut into parts. -/
def BoundedAt (limit : Limit) (chunk : Chunk) (pieces : List Chunk) : Prop :=
  if chunk.content.length ≤ limit.size then pieces = [chunk] else PartsAt limit chunk pieces

@[simp] theorem contents_partsOf (chunk : Chunk) (texts : List String) :
    (partsOf chunk texts).map (·.content) = texts := by
  rw [partsOf_eq, List.map_map]
  exact List.zipIdx_map_fst 0 texts

theorem partsAt_partsOf {limit : Limit} {chunk : Chunk} {pieces : List (List Char)}
    (h : CutAt limit.size chunk.content.toList pieces) :
    PartsAt limit chunk (partsOf chunk (pieces.map String.ofList)) := by
  have hcontents := contents_partsOf chunk (pieces.map String.ofList)
  -- The text of a part is a piece, and that of a part before the last one is one before it.
  have hpiece : ∀ part ∈ partsOf chunk (pieces.map String.ofList),
      ∃ piece ∈ pieces, String.ofList piece = part.content := by
    intro part hpart
    rw [← List.mem_map, ← hcontents]
    exact List.mem_map_of_mem hpart
  have hpiece' : ∀ part ∈ (partsOf chunk (pieces.map String.ofList)).dropLast,
      ∃ piece ∈ pieces.dropLast, String.ofList piece = part.content := by
    intro part hpart
    rw [← List.mem_map, List.map_dropLast, ← hcontents, ← List.map_dropLast]
    exact List.mem_map_of_mem hpart
  constructor
  · rw [partsOf_eq, List.length_map, List.length_zipIdx, List.length_map, h.count,
      String.length_toList]
  · rw [hcontents, ← String.toList_inj, String.toList_join, List.flatMap_map]
    simpa using h.joined
  · intro part hpart hempty
    obtain ⟨piece, hmem, heq⟩ := hpiece part hpart
    apply h.nonempty piece hmem
    simpa [hempty] using heq
  · intro part hpart
    obtain ⟨piece, hmem, heq⟩ := hpiece' part hpart
    rw [← heq, String.length_ofList]
    exact h.full piece hmem
  · intro part hpart
    obtain ⟨piece, hmem, heq⟩ := hpiece part hpart
    rw [← heq, String.length_ofList]
    exact h.short piece hmem
  · intro i part hpart
    rw [partsOf_eq, List.getElem?_map, List.getElem?_zipIdx, Option.map_map] at hpart
    obtain ⟨text, -, rfl⟩ := Option.map_eq_some_iff.mp hpart
    simp [partsOf_eq, partOf]

theorem boundedAt_bound (limit : Limit) (chunk : Chunk) :
    BoundedAt limit chunk (bound limit chunk) := by
  rw [BoundedAt, bound, ← String.length_toList]
  by_cases hshort : chunk.content.toList.length ≤ limit.size
  · rw [if_pos hshort, if_pos hshort]
  · rw [if_neg hshort, if_neg hshort]
    exact partsAt_partsOf (cutAt_stretches limit.size_pos le_rfl)

/-- A chunk that is longer than the limit has parts. -/
theorem PartsAt.ne_nil {limit : Limit} {chunk : Chunk} {parts : List Chunk}
    (h : PartsAt limit chunk parts) (hlong : ¬ chunk.content.length ≤ limit.size) : parts ≠ [] := by
  rintro rfl
  apply hlong
  rw [← h.joined]
  exact Nat.zero_le _

theorem BoundedAt.ne_nil {limit : Limit} {chunk : Chunk} {pieces : List Chunk}
    (h : BoundedAt limit chunk pieces) : pieces ≠ [] := by
  unfold BoundedAt at h
  split_ifs at h with hshort
  · simp [h]
  · exact h.ne_nil hshort

/-- No piece of a chunk is longer than the limit. -/
theorem BoundedAt.length_le {limit : Limit} {chunk : Chunk} {pieces : List Chunk}
    (h : BoundedAt limit chunk pieces) :
    ∀ piece ∈ pieces, piece.content.length ≤ limit.size := by
  intro piece hpiece
  unfold BoundedAt at h
  split_ifs at h with hshort
  · rw [h, List.mem_singleton] at hpiece
    rwa [hpiece]
  · exact h.short piece hpiece

/-! ## Reassembly -/

/-- The chunk that a run of parts with given texts was cut into, by the last part. -/
def wholeOf (last : Chunk) (texts : List String) : Chunk :=
  { last with
    content := String.join texts
    contentHash := contentHash (String.join texts)
    part := none
    partCount := none }

/-- The chunks that a listing was cut from, where `held` are the texts of the parts of the
current chunk so far.  A chunk without a number is whole, and a run of numbers from one up to
the number of parts is one chunk; there is nothing to be made of any other listing. -/
def reassembleFrom : (held : List String) → List Chunk → Option (List Chunk)
  | held, [] => if held = [] then some [] else none
  | held, chunk :: rest =>
      if chunk.part = none then
        if held = [] then (reassembleFrom [] rest).map (chunk :: ·) else none
      else if chunk.part = some ((held.length + 1 : Nat) : Int) then
        let texts := held ++ [chunk.content]
        if chunk.partCount = chunk.part then
          (reassembleFrom [] rest).map (wholeOf chunk texts :: ·)
        else reassembleFrom texts rest
      else none

/-- The chunks that a listing was cut from. -/
def reassemble (chunks : List Chunk) : Option (List Chunk) :=
  reassembleFrom [] chunks

theorem reassemble_whole {chunk : Chunk} (h : chunk.part = none) (rest : List Chunk) :
    reassemble (chunk :: rest) = (reassemble rest).map (chunk :: ·) := by
  rw [reassemble, reassembleFrom, if_pos h, if_pos rfl]
  rfl

/-- The next part ends the current chunk if it has the number of all parts. -/
theorem reassembleFrom_part {held : List String} {part : Chunk}
    (hpart : part.part = some ((held.length + 1 : Nat) : Int)) (rest : List Chunk) :
    reassembleFrom held (part :: rest) =
      if part.partCount = part.part then
        (reassemble rest).map (wholeOf part (held ++ [part.content]) :: ·)
      else reassembleFrom (held ++ [part.content]) rest := by
  have hsome : part.part ≠ none := by simp [hpart]
  rw [reassembleFrom, if_neg hsome, if_pos hpart]
  rfl

/-- The rest of the parts of a chunk, where the texts of the parts before them are held. -/
theorem reassembleFrom_parts (chunk : Chunk) (held texts : List String) (htexts : texts ≠ [])
    (rest : List Chunk) :
    reassembleFrom held
        (((texts.zipIdx held.length).map fun numbered =>
          partOf chunk (held.length + texts.length) numbered.2 numbered.1) ++ rest) =
      (reassemble rest).map (wholeOf chunk (held ++ texts) :: ·) := by
  -- Part by part: the next one has the number of those that are held, and is the last one if
  -- no other text is left.
  induction texts generalizing held with
  | nil => contradiction
  | cons text texts ih =>
      rw [List.zipIdx_cons, List.map_cons, List.cons_append, reassembleFrom_part rfl]
      by_cases hlast : texts = []
      · subst hlast
        exact if_pos rfl
      · have hpos := List.length_pos_of_ne_nil hlast
        have hcount : ¬ (partOf chunk (held.length + (text :: texts).length) held.length text).partCount =
            (partOf chunk (held.length + (text :: texts).length) held.length text).part := by
          simp only [partOf, List.length_cons, Option.some.injEq, Nat.cast_inj]
          omega
        have hnext := ih (held ++ [text]) hlast
        rw [List.length_append, List.length_singleton, List.append_assoc, Nat.add_assoc,
          Nat.add_comm 1] at hnext
        rw [if_neg hcount]
        exact hnext

/-- The joined texts of a chunk that was not a part give it back. -/
theorem wholeOf_eq {chunk : Chunk} (hwhole : chunk.IsWhole)
    (hhash : chunk.contentHash = contentHash chunk.content) {texts : List String}
    (htexts : String.join texts = chunk.content) : wholeOf chunk texts = chunk := by
  unfold wholeOf
  rw [htexts, ← hhash]
  cases chunk
  obtain ⟨rfl, rfl⟩ := hwhole
  rfl

/-- The parts of a chunk give it back. -/
theorem reassemble_bound (limit : Limit) {chunk : Chunk} (hwhole : chunk.IsWhole)
    (hhash : chunk.contentHash = contentHash chunk.content) (rest : List Chunk) :
    reassemble (bound limit chunk ++ rest) = (reassemble rest).map (chunk :: ·) := by
  rw [bound]
  split_ifs with hshort
  · exact reassemble_whole hwhole.1 rest
  · have hparts := partsAt_partsOf
      (cutAt_stretches limit.size_pos (le_refl chunk.content.toList.length))
    have htexts : (stretches limit.size chunk.content.toList.length chunk.content.toList).map
        String.ofList ≠ [] := by
      intro hnil
      apply hparts.ne_nil hshort
      rw [hnil]
      rfl
    have hjoined := hparts.joined
    rw [contents_partsOf] at hjoined
    have hreads := reassembleFrom_parts chunk [] _ htexts rest
    rw [List.nil_append, wholeOf_eq hwhole hhash hjoined] at hreads
    rw [reassemble, partsOf_eq]
    simpa only [List.length_nil, Nat.zero_add] using hreads

/-! ## Listings -/

section

variable {limit : Limit} {file text : String}

theorem isWhole_of_mem_wholeChunks {chunk : Chunk} (h : chunk ∈ wholeChunks file text) :
    chunk.IsWhole ∧ chunk.contentHash = contentHash chunk.content := by
  obtain ⟨d, -, hchunk⟩ := List.mem_flatMap.mp h
  exact ⟨isWhole_of_mem_chunksOf hchunk, (describes_of_mem_chunksOf hchunk).hash⟩

/-- A chunk whose pieces have no numbers is not cut. -/
theorem bound_eq_of_unnumbered {chunk : Chunk}
    (h : ∀ piece ∈ bound limit chunk, piece.part = none) : bound limit chunk = [chunk] := by
  have hbounded := boundedAt_bound limit chunk
  unfold BoundedAt at hbounded
  split_ifs at hbounded with hshort
  · exact hbounded
  · obtain ⟨part, hpart⟩ := List.exists_mem_of_ne_nil _ (hbounded.ne_nil hshort)
    obtain ⟨i, hi⟩ := List.mem_iff_getElem?.mp hpart
    have hnone := h part hpart
    rw [hbounded.numbered i part hi] at hnone
    contradiction

/-- A listing without parts has the chunks of the text before any of them is cut. -/
theorem chunkText_of_unnumbered (h : ∀ chunk ∈ chunkText limit file text, chunk.part = none) :
    chunkText limit file text = wholeChunks file text := by
  have hbound : ∀ chunk ∈ wholeChunks file text, bound limit chunk = [chunk] := by
    intro chunk hchunk
    apply bound_eq_of_unnumbered
    intro piece hpiece
    exact h piece (List.mem_flatMap.mpr ⟨chunk, hchunk, hpiece⟩)
  rw [chunkText, List.flatMap_congr hbound]
  exact List.flatMap_singleton' _

/-- No chunk of a text is longer than all of them together. -/
theorem chunkText_of_long (h : ((wholeChunks file text).map (·.content.length)).sum ≤ limit.size) :
    chunkText limit file text = wholeChunks file text := by
  have hbound : ∀ chunk ∈ wholeChunks file text, bound limit chunk = [chunk] := by
    intro chunk hchunk
    have hle : chunk.content.length ≤ limit.size :=
      (List.single_le_sum (fun _ _ => Nat.zero_le _) _ (List.mem_map_of_mem hchunk)).trans h
    have hbounded := boundedAt_bound limit chunk
    rwa [BoundedAt, if_pos hle] at hbounded
  rw [chunkText, List.flatMap_congr hbound]
  exact List.flatMap_singleton' _

theorem reassemble_flatMap_bound (limit : Limit) {chunks : List Chunk}
    (h : ∀ chunk ∈ chunks, chunk.IsWhole ∧ chunk.contentHash = contentHash chunk.content) :
    reassemble (chunks.flatMap (bound limit)) = some chunks := by
  induction chunks with
  | nil => rfl
  | cons chunk chunks ih =>
      obtain ⟨⟨hwhole, hhash⟩, hrest⟩ := List.forall_mem_cons.mp h
      rw [List.flatMap_cons, reassemble_bound limit hwhole hhash, ih hrest]
      rfl

end

/-- Bounding the size of chunks loses nothing.  At every limit from some size on, the listing
of a text has no parts.  From any listing without parts, the listing at any limit is made chunk
by chunk: a chunk within the limit stays as it is, and any other one is cut into numbered parts
of the size of the limit.  So no text in it is longer than the limit, and the chunks can be
read from it as they were. -/
theorem bound_loses_nothing (file text : String) :
    (∃ size, ∀ large : Limit, size ≤ large.size →
      ∀ chunk ∈ chunkText large file text, chunk.part = none) ∧
    ∀ large : Limit, (∀ chunk ∈ chunkText large file text, chunk.part = none) →
      ∀ limit : Limit,
        (∃ pieces, List.Forall₂ (BoundedAt limit) (chunkText large file text) pieces ∧
          chunkText limit file text = pieces.flatten) ∧
        (∀ chunk ∈ chunkText limit file text, chunk.content.length ≤ limit.size) ∧
        reassemble (chunkText limit file text) = some (chunkText large file text) := by
  constructor
  · refine ⟨((wholeChunks file text).map (·.content.length)).sum, fun large hlarge => ?_⟩
    rw [chunkText_of_long hlarge]
    intro chunk hchunk
    exact (isWhole_of_mem_wholeChunks hchunk).1.1
  · intro large hunnumbered limit
    rw [chunkText_of_unnumbered hunnumbered]
    refine ⟨⟨(wholeChunks file text).map (bound limit), ?_, ?_⟩, ?_, ?_⟩
    · rw [List.forall₂_map_right_iff, List.forall₂_same]
      intro chunk _
      exact boundedAt_bound limit chunk
    · rw [chunkText, List.flatMap_def]
    · intro piece hpiece
      obtain ⟨chunk, -, hpiece⟩ := List.mem_flatMap.mp hpiece
      exact (boundedAt_bound limit chunk).length_le piece hpiece
    · exact reassemble_flatMap_bound limit fun chunk hchunk => isWhole_of_mem_wholeChunks hchunk

/-- Two variables, the second of which is longer than ten characters. -/
def shortAndLong : String :=
  "int a = 1;\nint b = 123456;"

/-- The limit of ten characters. -/
def tenCharacters : Limit := ⟨10, by decide⟩

/-- The longer one is cut in two, and read back as one. -/
theorem bound_loses_nothing_shortAndLong :
    (chunkText tenCharacters "a.bal" shortAndLong).map
        (fun chunk => (chunk.content, chunk.part, chunk.partCount)) =
      [("int a = 1;", none, none), ("int b = 12", some 1, some 2), ("3456;", some 2, some 2)] ∧
    reassemble (chunkText tenCharacters "a.bal" shortAndLong) =
      some (chunkText .standard "a.bal" shortAndLong) := by
  have hwhole : ∀ chunk ∈ chunkText .standard "a.bal" shortAndLong, chunk.part = none := by
    decide +kernel
  have hbounded := (bound_loses_nothing "a.bal" shortAndLong).2 .standard hwhole tenCharacters
  exact ⟨by decide +kernel, hbounded.2.2⟩

end SourceChunks
