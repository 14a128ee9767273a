import Mathlib
import SourceChunks.Chunk.Dedupe
import SourceChunks.Proofs.Document.RecordKeys

/-!
# What is kept when known texts are dropped

Chunks are cut before known texts are dropped, and the parts of a chunk have hashes of their
own.  So every text that is cut is kept somewhere, but a part is dropped alone if its text was
met before, in another chunk or in the same one, and then its chunk is not kept as it was.

* `sift_append`, `mem_seen_sift`: two listings are sifted one after the other.
* `kept_eq_iff`: nothing is dropped exactly if all hashes are new.
* `HoldsText`: a listing has a chunk with a text, or all parts of one.
* `bound_cases`, `bound_eq_of_numbered`: the pieces of a chunk, and how they are told apart.
* `holdsText_of_pieces`, `exists_of_holdsText`: a text is held if all pieces of a chunk with that
  text are kept, and only then.
* `allNew_of_pieces`: they are kept only if their hashes are new.
* `deduplicate_keeps_texts`: which texts of a project are held.
-/

namespace SourceChunks

/-! ## Sifting -/

section

variable {seen : Seen} {chunk : Chunk} {chunks : List Chunk}

theorem sift_of_mem (h : chunk.contentHash ∈ seen) (rest : List Chunk) :
    (sift seen (chunk :: rest)).kept = (sift seen rest).kept ∧
      (sift seen (chunk :: rest)).seen = (sift seen rest).seen := by
  rw [sift, if_pos (Std.HashSet.mem_iff_contains.mp h)]
  exact ⟨rfl, rfl⟩

theorem sift_of_notMem (h : chunk.contentHash ∉ seen) (rest : List Chunk) :
    (sift seen (chunk :: rest)).kept =
        chunk :: (sift (seen.insert chunk.contentHash) rest).kept ∧
      (sift seen (chunk :: rest)).seen = (sift (seen.insert chunk.contentHash) rest).seen := by
  rw [sift, if_neg (fun hcontains => h (Std.HashSet.mem_iff_contains.mpr hcontains))]
  exact ⟨rfl, rfl⟩

/-- Two listings are sifted one after the other. -/
theorem sift_append (seen : Seen) (front rest : List Chunk) :
    (sift seen (front ++ rest)).kept =
        (sift seen front).kept ++ (sift (sift seen front).seen rest).kept ∧
      (sift seen (front ++ rest)).seen = (sift (sift seen front).seen rest).seen := by
  induction front generalizing seen with
  | nil => exact ⟨rfl, rfl⟩
  | cons chunk front ih =>
      rw [List.cons_append]
      by_cases h : chunk.contentHash ∈ seen
      · obtain ⟨hkept, hseen⟩ := sift_of_mem h front
        obtain ⟨hkept', hseen'⟩ := sift_of_mem h (front ++ rest)
        rw [hkept, hseen, hkept', hseen']
        exact ih seen
      · obtain ⟨hkept, hseen⟩ := sift_of_notMem h front
        obtain ⟨hkept', hseen'⟩ := sift_of_notMem h (front ++ rest)
        rw [hkept, hseen, hkept', hseen', (ih _).1]
        exact ⟨rfl, (ih _).2⟩

/-- The hashes that are known afterwards. -/
@[simp] theorem mem_seen_sift {hash : String} :
    hash ∈ (sift seen chunks).seen ↔ hash ∈ seen ∨ hash ∈ chunks.map (·.contentHash) := by
  induction chunks generalizing seen with
  | nil => simp [sift]
  | cons chunk chunks ih =>
      rw [List.map_cons, List.mem_cons]
      by_cases h : chunk.contentHash ∈ seen
      · rw [(sift_of_mem h chunks).2, ih]
        constructor
        · exact Or.imp_right .inr
        · rintro (hmem | rfl | hmem)
          · exact .inl hmem
          · exact .inl h
          · exact .inr hmem
      · rw [(sift_of_notMem h chunks).2, ih, Std.HashSet.mem_insert, beq_iff_eq, or_assoc,
          or_left_comm, eq_comm]

theorem kept_sublist (seen : Seen) (chunks : List Chunk) : (sift seen chunks).kept.Sublist chunks := by
  induction chunks generalizing seen with
  | nil => exact List.Sublist.refl _
  | cons chunk chunks ih =>
      by_cases h : chunk.contentHash ∈ seen
      · rw [(sift_of_mem h chunks).1]
        exact (ih seen).cons chunk
      · rw [(sift_of_notMem h chunks).1]
        exact (ih _).cons_cons chunk

/-- Of the chunks with one hash, one is kept if the hash is new, and none otherwise. -/
@[simp] theorem mem_hashes_kept {hash : String} :
    hash ∈ (sift seen chunks).kept.map (·.contentHash) ↔
      hash ∈ chunks.map (·.contentHash) ∧ hash ∉ seen := by
  induction chunks generalizing seen with
  | nil => simp [sift]
  | cons chunk chunks ih =>
      rw [List.map_cons, List.mem_cons]
      by_cases h : chunk.contentHash ∈ seen
      · rw [(sift_of_mem h chunks).1, ih]
        constructor
        · exact And.imp_left .inr
        · rintro ⟨rfl | hmem, hnew⟩
          · exact absurd h hnew
          · exact ⟨hmem, hnew⟩
      · rw [(sift_of_notMem h chunks).1, List.map_cons, List.mem_cons, ih, Std.HashSet.mem_insert,
          beq_iff_eq, not_or]
        constructor
        · rintro (rfl | ⟨hmem, -, hnew⟩)
          · exact ⟨.inl rfl, h⟩
          · exact ⟨.inr hmem, hnew⟩
        · rintro ⟨rfl | hmem, hnew⟩
          · exact .inl rfl
          · by_cases heq : hash = chunk.contentHash
            · exact .inl heq
            · exact .inr ⟨hmem, Ne.symm heq, hnew⟩

/-- Nothing is dropped exactly if all hashes are new. -/
theorem kept_eq_iff : (sift seen chunks).kept = chunks ↔
    (chunks.map (·.contentHash)).Nodup ∧ ∀ chunk ∈ chunks, chunk.contentHash ∉ seen := by
  induction chunks generalizing seen with
  | nil => simp [sift]
  | cons chunk chunks ih =>
      rw [List.map_cons, List.nodup_cons, List.forall_mem_cons]
      by_cases h : chunk.contentHash ∈ seen
      · rw [(sift_of_mem h chunks).1]
        refine iff_of_false (fun heq => ?_) fun hnew => hnew.2.1 h
        have hle := (kept_sublist seen chunks).length_le
        rw [heq, List.length_cons] at hle
        omega
      · rw [(sift_of_notMem h chunks).1, List.cons.injEq, and_iff_right rfl, ih]
        have hinsert : (∀ other ∈ chunks, other.contentHash ∉ seen.insert chunk.contentHash) ↔
            chunk.contentHash ∉ chunks.map (·.contentHash) ∧
              ∀ other ∈ chunks, other.contentHash ∉ seen := by
          simp only [Std.HashSet.mem_insert, beq_iff_eq, not_or, List.mem_map, not_exists, not_and]
          constructor
          · intro hall
            exact ⟨fun other hother heq => (hall other hother).1 heq.symm,
              fun other hother => (hall other hother).2⟩
          · rintro ⟨hne, hall⟩ other hother
            exact ⟨fun heq => hne other hother heq.symm, hall other hother⟩
        rw [hinsert]
        tauto

end

/-! ## Pieces -/

section

variable {limit : Limit} {chunk chunk' piece : Chunk}

/-- A chunk is its only piece, or is cut into its parts. -/
theorem bound_cases (limit : Limit) (chunk : Chunk) :
    bound limit chunk = [chunk] ∨ PartsAt limit chunk (bound limit chunk) := by
  have hbounded := boundedAt_bound limit chunk
  unfold BoundedAt at hbounded
  split_ifs at hbounded
  · exact .inl hbounded
  · exact .inr hbounded

@[simp] theorem joined_bound (limit : Limit) (chunk : Chunk) :
    String.join ((bound limit chunk).map (·.content)) = chunk.content := by
  rcases bound_cases limit chunk with hsingle | hparts
  · rw [hsingle]
    simp [String.join]
  · exact hparts.joined

/-- The texts of the pieces depend on nothing but the text of the chunk. -/
theorem contents_bound (h : chunk.content = chunk'.content) :
    (bound limit chunk).map (·.content) = (bound limit chunk').map (·.content) := by
  unfold bound
  simp only [h]
  split_ifs
  · exact congrArg (fun text => [text]) h
  · rw [contents_partsOf, contents_partsOf]

theorem hashes_bound (h : chunk.contentHash = contentHash chunk.content) :
    (bound limit chunk).map (·.contentHash) =
      ((bound limit chunk).map (·.content)).map contentHash := by
  rw [List.map_map]
  refine List.map_congr_left fun piece hpiece => ?_
  rw [isPieceOf_of_mem_bound h hpiece]
  rfl

/-- A piece without a number is a whole chunk; one with a number is one of its parts. -/
theorem piece_cases (hpiece : piece ∈ bound limit chunk) (hwhole : chunk.IsWhole) :
    (piece.part = none ∧ bound limit chunk = [piece] ∧ piece = chunk) ∨
      (piece.part ≠ none ∧ PartsAt limit chunk (bound limit chunk)) := by
  rcases bound_cases limit chunk with hsingle | hparts
  · rw [hsingle, List.mem_singleton] at hpiece
    subst hpiece
    exact .inl ⟨hwhole.1, hsingle, rfl⟩
  · refine .inr ⟨fun hnone => ?_, hparts⟩
    obtain ⟨i, hi⟩ := List.mem_iff_getElem?.mp hpiece
    rw [hparts.numbered i piece hi] at hnone
    contradiction

theorem nodup_bound (limit : Limit) (chunk : Chunk) : (bound limit chunk).Nodup := by
  rcases bound_cases limit chunk with hsingle | hparts
  · rw [hsingle]
    exact List.nodup_singleton chunk
  · refine List.pairwise_iff_getElem.mpr fun i j hi hj hlt heq => ?_
    have hnumber := hparts.numbered i _ (List.getElem?_eq_getElem hi)
    have hnumber' := hparts.numbered j _ (List.getElem?_eq_getElem hj)
    have hpart := congrArg Chunk.part heq
    rw [hnumber, hnumber', Option.some.injEq, Nat.cast_inj] at hpart
    omega

/-- Pieces of a chunk that have the numbers of all parts are all of its pieces. -/
theorem bound_eq_of_numbered {parts : List Chunk} (hwhole : chunk.IsWhole) (hne : parts ≠ [])
    (hmem : ∀ part ∈ parts, part ∈ bound limit chunk)
    (hnumbers : ∀ (i : Nat) (part : Chunk), parts[i]? = some part →
      part.part = some ((i + 1 : Nat) : ℤ) ∧ part.partCount = some ((parts.length : Nat) : ℤ)) :
    bound limit chunk = parts := by
  have hat : ∀ (i : Nat) (part : Chunk), parts[i]? = some part →
      (bound limit chunk)[i]? = some part ∧ (bound limit chunk).length = parts.length := by
    intro i part hpart
    obtain ⟨hnumber, hcount⟩ := hnumbers i part hpart
    have hbound := hmem part (List.mem_of_getElem? hpart)
    rcases piece_cases hbound hwhole with ⟨hnone, -, -⟩ | ⟨-, hparts⟩
    · rw [hnone] at hnumber
      contradiction
    · obtain ⟨j, hj⟩ := List.mem_iff_getElem?.mp hbound
      rw [hparts.numbered j part hj] at hnumber hcount
      simp only [Option.some.injEq, Nat.cast_inj] at hnumber hcount
      obtain rfl : j = i := by omega
      exact ⟨hj, hcount⟩
  have hlength : (bound limit chunk).length = parts.length :=
    (hat 0 _ (List.getElem?_eq_getElem (List.length_pos_of_ne_nil hne))).2
  refine List.ext_getElem? fun i => ?_
  cases hi : parts[i]? with
  | none =>
      rw [List.getElem?_eq_none_iff] at hi ⊢
      omega
  | some part => exact (hat i part hi).1

/-! ## Listings that hold a text -/

/-- A listing has a chunk with a text that is not a part, or all parts of a chunk that have the
text together. -/
def HoldsText (chunks : List Chunk) (text : String) : Prop :=
  (∃ chunk ∈ chunks, chunk.part = none ∧ chunk.content = text) ∨
    ∃ id role parts, parts ≠ [] ∧
      (∀ part ∈ parts, part ∈ chunks ∧ part.id = id ∧ part.role = role) ∧
      (∀ (i : Nat) (part : Chunk), parts[i]? = some part →
        part.part = some ((i + 1 : Nat) : ℤ) ∧ part.partCount = some ((parts.length : Nat) : ℤ)) ∧
      String.join (parts.map (·.content)) = text

/-- None of some chunks has the hash of another one, or of a chunk in an earlier listing. -/
def AllNew (earlier chunks : List Chunk) : Prop :=
  (chunks.map (·.contentHash)).Nodup ∧
    ∀ chunk ∈ chunks, chunk.contentHash ∉ earlier.map (·.contentHash)

instance (earlier chunks : List Chunk) : Decidable (AllNew earlier chunks) :=
  inferInstanceAs (Decidable (_ ∧ _))

/-- What is kept of some chunks that are cut at a limit. -/
def keptAt (limit : Limit) (chunks : List Chunk) : List Chunk :=
  deduplicate (chunks.flatMap (bound limit))

/-- What distinguishes the parts of a chunk from those of others. -/
def Chunk.half (chunk : Chunk) : String × Option Role :=
  (chunk.id, chunk.role)

/-- A piece belongs to the same half as its chunk. -/
theorem half_of_mem_bound (h : chunk.contentHash = contentHash chunk.content)
    (hpiece : piece ∈ bound limit chunk) : piece.half = chunk.half := by
  rw [isPieceOf_of_mem_bound h hpiece]
  rfl

/-- A text is held if all pieces of a chunk with that text are kept. -/
theorem holdsText_of_pieces {kept : List Chunk} (hwhole : chunk.IsWhole)
    (hkept : ∀ piece ∈ bound limit chunk, piece ∈ kept) : HoldsText kept chunk.content := by
  have hbounded := boundedAt_bound limit chunk
  unfold BoundedAt at hbounded
  split_ifs at hbounded with hshort
  · rw [hbounded] at hkept
    exact .inl ⟨chunk, hkept chunk (List.mem_singleton_self chunk), hwhole.1, rfl⟩
  · refine .inr ⟨chunk.id, chunk.role, bound limit chunk, hbounded.ne_nil hshort, ?_, ?_,
      hbounded.joined⟩
    · intro part hpart
      obtain ⟨i, hi⟩ := List.mem_iff_getElem?.mp hpart
      refine ⟨hkept part hpart, ?_, ?_⟩
      · rw [hbounded.numbered i part hi]
      · rw [hbounded.numbered i part hi]
    · intro i part hpart
      rw [hbounded.numbered i part hpart]
      exact ⟨rfl, rfl⟩

end

section

variable {limit : Limit} {chunks before after : List Chunk} {chunk : Chunk} {text : String}

/-- A text is held only if all pieces of a chunk with that text are kept, where no two chunks
are the same half of the same declaration. -/
theorem exists_of_holdsText
    (hchunks : ∀ chunk ∈ chunks, chunk.IsWhole ∧ chunk.contentHash = contentHash chunk.content)
    (hdistinct : (chunks.map Chunk.half).Nodup) (h : HoldsText (keptAt limit chunks) text) :
    ∃ chunk ∈ chunks, chunk.content = text ∧
      ∀ piece ∈ bound limit chunk, piece ∈ keptAt limit chunks := by
  have howner : ∀ piece ∈ keptAt limit chunks, ∃ chunk ∈ chunks, piece ∈ bound limit chunk :=
    fun piece hpiece => List.mem_flatMap.mp ((kept_sublist _ _).subset hpiece)
  rcases h with ⟨piece, hpiece, hnone, rfl⟩ | ⟨id, role, parts, hne, hparts, hnumbers, rfl⟩
  · obtain ⟨chunk, hchunk, hbound⟩ := howner piece hpiece
    rcases piece_cases hbound (hchunks chunk hchunk).1 with ⟨-, hsingle, rfl⟩ | ⟨hsome, -⟩
    · refine ⟨piece, hchunk, rfl, fun other hother => ?_⟩
      rw [hsingle, List.mem_singleton] at hother
      rwa [hother]
    · exact absurd hnone hsome
  · -- All of the parts belong to one chunk, so they are all of its pieces.
    obtain ⟨first, hfirst⟩ := List.exists_mem_of_ne_nil parts hne
    obtain ⟨hkept, hid, hrole⟩ := hparts first hfirst
    obtain ⟨chunk, hchunk, hbound⟩ := howner first hkept
    have hhalf := half_of_mem_bound (hchunks chunk hchunk).2 hbound
    have hmem : ∀ part ∈ parts, part ∈ bound limit chunk := by
      intro part hpart
      obtain ⟨hkept', hid', hrole'⟩ := hparts part hpart
      obtain ⟨other, hother, hbound'⟩ := howner part hkept'
      have heq : other.half = chunk.half := by
        rw [← half_of_mem_bound (hchunks other hother).2 hbound', ← hhalf, Chunk.half, Chunk.half,
          hid, hrole, hid', hrole']
      rwa [List.inj_on_of_nodup_map hdistinct hother hchunk heq] at hbound'
    have heq := bound_eq_of_numbered (hchunks chunk hchunk).1 hne hmem hnumbers
    refine ⟨chunk, hchunk, ?_, fun piece hpiece => ?_⟩
    · rw [← joined_bound limit chunk, heq]
    · exact (hparts piece (heq ▸ hpiece)).1

/-- What is kept of a listing, around the pieces of one of its chunks. -/
theorem keptAt_split (limit : Limit) (before : List Chunk) (chunk : Chunk) (after : List Chunk) :
    ∃ stays rest, keptAt limit (before ++ chunk :: after) =
        keptAt limit before ++ (stays ++ rest) ∧
      stays.Sublist (bound limit chunk) ∧ rest.Sublist (after.flatMap (bound limit)) ∧
      (stays = bound limit chunk ↔ AllNew (before.flatMap (bound limit)) (bound limit chunk)) := by
  rw [keptAt, deduplicate, List.flatMap_append, List.flatMap_cons, (sift_append _ _ _).1,
    (sift_append _ _ _).1]
  refine ⟨_, _, rfl, kept_sublist _ _, kept_sublist _ _, ?_⟩
  rw [kept_eq_iff, AllNew]
  simp only [mem_seen_sift, Std.HashSet.not_mem_empty, false_or]

/-- The pieces of a chunk are all kept only if their hashes are new, where no two chunks are
the same half of the same declaration. -/
theorem allNew_of_pieces
    (hchunks : ∀ other ∈ before ++ chunk :: after,
      other.contentHash = contentHash other.content)
    (hdistinct : ((before ++ chunk :: after).map Chunk.half).Nodup)
    (hkept : ∀ piece ∈ bound limit chunk, piece ∈ keptAt limit (before ++ chunk :: after)) :
    AllNew (before.flatMap (bound limit)) (bound limit chunk) := by
  obtain ⟨stays, rest, hsplit, hstays, hrest, hiff⟩ := keptAt_split limit before chunk after
  rw [List.map_append, List.map_cons, List.nodup_append, List.nodup_cons] at hdistinct
  obtain ⟨-, ⟨hafter, -⟩, hbefore⟩ := hdistinct
  -- What is kept of the other chunks belongs to other halves.
  have hmem : ∀ piece ∈ bound limit chunk, piece ∈ stays := by
    intro piece hpiece
    have hown := half_of_mem_bound (hchunks chunk (by simp)) hpiece
    have hpiece' := hkept piece hpiece
    rw [hsplit, List.mem_append, List.mem_append] at hpiece'
    rcases hpiece' with hmem | hmem | hmem
    · obtain ⟨other, hother, hbound⟩ := List.mem_flatMap.mp ((kept_sublist _ _).subset hmem)
      have heq := half_of_mem_bound (hchunks other (by simp [hother])) hbound
      exact absurd (heq.symm.trans hown) (hbefore _ (List.mem_map_of_mem hother) _ (by simp))
    · exact hmem
    · obtain ⟨other, hother, hbound⟩ := List.mem_flatMap.mp (hrest.subset hmem)
      have heq := half_of_mem_bound (hchunks other (by simp [hother])) hbound
      refine absurd ?_ hafter
      rw [← hown, heq]
      exact List.mem_map_of_mem hother
  have hle := ((nodup_bound limit chunk).subperm hmem).length_le
  exact hiff.mp (hstays.eq_of_length_le hle)

/-- A text is held only if the pieces of the first chunk with that text have new hashes, where
no two chunks are the same half of the same declaration. -/
theorem allNew_of_holdsText
    (hchunks : ∀ other ∈ before ++ chunk :: after,
      other.IsWhole ∧ other.contentHash = contentHash other.content)
    (hdistinct : ((before ++ chunk :: after).map Chunk.half).Nodup)
    (hfirst : ∀ other ∈ before, other.content ≠ chunk.content)
    (h : HoldsText (keptAt limit (before ++ chunk :: after)) chunk.content) :
    AllNew (before.flatMap (bound limit)) (bound limit chunk) := by
  obtain ⟨owner, howner, hcontent, hkept⟩ := exists_of_holdsText hchunks hdistinct h
  obtain ⟨before', after', hsplit⟩ := List.append_of_mem howner
  have hhashes : ∀ other ∈ before ++ chunk :: after,
      other.contentHash = contentHash other.content := fun other hother => (hchunks other hother).2
  have hnew : AllNew (before'.flatMap (bound limit)) (bound limit owner) := by
    rw [hsplit] at hhashes hdistinct hkept
    exact allNew_of_pieces hhashes hdistinct hkept
  -- Behind the first chunk with its text, the owner would have no new hashes.
  have hnotMem : chunk ∉ before' := by
    intro hmem
    obtain ⟨piece, hpiece⟩ :=
      List.exists_mem_of_ne_nil _ (boundedAt_bound limit owner).ne_nil
    have hsame : (bound limit owner).map (·.contentHash) =
        (bound limit chunk).map (·.contentHash) := by
      rw [hashes_bound (hhashes owner howner), hashes_bound (hhashes chunk (by simp)),
        contents_bound hcontent]
    refine hnew.2 piece hpiece ?_
    have hhash := List.mem_map_of_mem (f := (·.contentHash)) hpiece
    rw [hsame] at hhash
    obtain ⟨other, hother, heq⟩ := List.mem_map.mp hhash
    exact List.mem_map.mpr ⟨other, List.mem_flatMap.mpr ⟨chunk, hmem, hother⟩, heq⟩
  rcases List.append_eq_append_iff.mp hsplit with ⟨between, rfl, heq⟩ | ⟨between, rfl, heq⟩
  · cases between with
    | nil =>
        obtain ⟨rfl, -⟩ := List.cons.inj heq
        rwa [List.append_nil] at hnew
    | cons other between =>
        obtain ⟨rfl, -⟩ := List.cons.inj heq
        exact absurd (by simp) hnotMem
  · cases between with
    | nil =>
        obtain ⟨rfl, -⟩ := List.cons.inj heq
        rwa [List.append_nil]
    | cons other between =>
        obtain ⟨rfl, -⟩ := List.cons.inj heq
        exact absurd hcontent (hfirst owner (by simp))

end

/-! ## Projects -/

section

variable {chunker : Chunker} {files : List SourceFile} {before after : List Chunk} {chunk : Chunk}

theorem deduplicate_chunkFiles (chunker : Chunker) (files : List SourceFile) :
    deduplicate (chunker.chunkFiles files) = keptAt chunker.limit (projectChunks files) := by
  rw [chunkFiles_eq, keptAt]

/-- For every piece, one with the same hash is kept. -/
theorem exists_kept_of_mem {chunks : List Chunk} (hchunk : chunk ∈ chunks) :
    ∃ first ∈ deduplicate chunks, first.contentHash = chunk.contentHash := by
  have hmem : chunk.contentHash ∈ (deduplicate chunks).map (·.contentHash) :=
    mem_hashes_kept.mpr ⟨List.mem_map_of_mem hchunk, Std.HashSet.not_mem_empty⟩
  exact List.mem_map.mp hmem

theorem isWhole_of_mem_projectChunks (h : chunk ∈ projectChunks files) :
    chunk.IsWhole ∧ chunk.contentHash = contentHash chunk.content := by
  obtain ⟨file, -, hchunk⟩ := List.mem_flatMap.mp h
  exact isWhole_of_mem_wholeChunks hchunk

theorem hash_of_mem_chunkFiles {piece : Chunk} (h : piece ∈ chunker.chunkFiles files) :
    piece.contentHash = contentHash piece.content := by
  rw [chunkFiles_eq] at h
  obtain ⟨chunk, hchunk, hpiece⟩ := List.mem_flatMap.mp h
  rw [isPieceOf_of_mem_bound (isWhole_of_mem_projectChunks hchunk).2 hpiece]

theorem allNew_of_held (hsplit : projectChunks files = before ++ chunk :: after)
    (hfirst : ∀ other ∈ before, other.content ≠ chunk.content)
    (hdistinct : ((projectChunks files).map Chunk.half).Nodup)
    (h : HoldsText (deduplicate (chunker.chunkFiles files)) chunk.content) :
    AllNew (before.flatMap (bound chunker.limit)) (bound chunker.limit chunk) := by
  rw [deduplicate_chunkFiles, hsplit] at h
  refine allNew_of_holdsText (fun other hother => ?_) (hsplit ▸ hdistinct) hfirst h
  rw [← hsplit] at hother
  exact isWhole_of_mem_projectChunks hother

/-- What dropping known texts keeps of a chunk of a project.

* The chunk is cut into pieces that have its text together, and for each of them a chunk with
  the same hash is kept.  So the text of every piece is kept if no two of the texts have the
  same digest.
* If none of the pieces has the hash of another one, or of what is listed before, the text of
  the chunk is held: in the chunk itself, or in all of its parts.
* Otherwise the text of the chunk is not held, unless it is that of an earlier chunk, or two
  chunks of the project are the same half of declarations with the same identifier. -/
theorem deduplicate_keeps_texts (hsplit : projectChunks files = before ++ chunk :: after) :
    (String.join ((bound chunker.limit chunk).map (·.content)) = chunk.content ∧
      (∀ piece ∈ bound chunker.limit chunk,
        ∃ first ∈ deduplicate (chunker.chunkFiles files), first.contentHash = piece.contentHash) ∧
      (Set.InjOn Sha256.hexDigest
          {text | ∃ piece ∈ chunker.chunkFiles files, piece.content = text} →
        ∀ piece ∈ bound chunker.limit chunk,
          ∃ first ∈ deduplicate (chunker.chunkFiles files), first.content = piece.content)) ∧
    (AllNew (before.flatMap (bound chunker.limit)) (bound chunker.limit chunk) →
      HoldsText (deduplicate (chunker.chunkFiles files)) chunk.content) ∧
    ((∀ other ∈ before, other.content ≠ chunk.content) →
      ((projectChunks files).map Chunk.half).Nodup →
      HoldsText (deduplicate (chunker.chunkFiles files)) chunk.content →
      AllNew (before.flatMap (bound chunker.limit)) (bound chunker.limit chunk)) := by
  have hchunk : chunk ∈ projectChunks files := by
    rw [hsplit]
    exact List.mem_append_right _ List.mem_cons_self
  have hpieces : ∀ piece ∈ bound chunker.limit chunk, piece ∈ chunker.chunkFiles files := by
    intro piece hpiece
    rw [chunkFiles_eq]
    exact List.mem_flatMap.mpr ⟨chunk, hchunk, hpiece⟩
  refine ⟨⟨joined_bound _ _, fun piece hpiece => exists_kept_of_mem (hpieces piece hpiece), ?_⟩,
    fun hnew => ?_, fun hfirst hdistinct h => allNew_of_held hsplit hfirst hdistinct h⟩
  · intro hdigest piece hpiece
    obtain ⟨first, hfirst, hhash⟩ := exists_kept_of_mem (hpieces piece hpiece)
    have hmem := (kept_sublist _ _).subset hfirst
    rw [hash_of_mem_chunkFiles hmem, hash_of_mem_chunkFiles (hpieces piece hpiece)] at hhash
    exact ⟨first, hfirst,
      hdigest ⟨first, hmem, rfl⟩ ⟨piece, hpieces piece hpiece, rfl⟩ hhash⟩
  · obtain ⟨stays, rest, hkept, -, -, hiff⟩ := keptAt_split chunker.limit before chunk after
    rw [deduplicate_chunkFiles, hsplit, hkept, hiff.mpr hnew]
    exact holdsText_of_pieces (isWhole_of_mem_projectChunks hchunk).1 fun piece hpiece =>
      List.mem_append_right _ (List.mem_append_left rest hpiece)

end

/-- A project of one import. -/
def oneImport : List SourceFile :=
  [⟨"a.bal", "import a;"⟩]

theorem exists_chunk_of_oneImport : projectChunks oneImport ≠ [] := by
  decide +kernel

theorem deduplicate_keeps_texts_oneImport :
    ∃ chunk ∈ projectChunks oneImport,
      HoldsText (deduplicate (Chunker.chunkFiles ⟨⟨5, by decide⟩, 1⟩ oneImport)) chunk.content := by
  have hsplit : projectChunks oneImport =
      [] ++ (projectChunks oneImport).head exists_chunk_of_oneImport ::
        (projectChunks oneImport).tail :=
    (List.cons_head_tail exists_chunk_of_oneImport).symm
  exact ⟨_, List.head_mem exists_chunk_of_oneImport,
    (deduplicate_keeps_texts hsplit).2.1 (by decide +kernel)⟩

/-- A variable with a value that repeats itself. -/
def repeatedDigits : List SourceFile :=
  [⟨"a.bal", "int x = 1111;"⟩]

theorem exists_chunk_of_repeatedDigits : projectChunks repeatedDigits ≠ [] := by
  decide +kernel

/-- Of two parts of a chunk that have the same text, only the first one is kept. -/
theorem repeatedDigits_torn :
    ∃ chunk ∈ projectChunks repeatedDigits,
      ¬ HoldsText (deduplicate (Chunker.chunkFiles ⟨⟨2, by decide⟩, 1⟩ repeatedDigits))
        chunk.content := by
  have hsplit : projectChunks repeatedDigits =
      [] ++ (projectChunks repeatedDigits).head exists_chunk_of_repeatedDigits ::
        (projectChunks repeatedDigits).tail :=
    (List.cons_head_tail exists_chunk_of_repeatedDigits).symm
  have hdistinct : ((projectChunks repeatedDigits).map Chunk.half).Nodup := by decide +kernel
  refine ⟨_, List.head_mem exists_chunk_of_repeatedDigits, fun h => ?_⟩
  have hhashes := (allNew_of_held hsplit (List.forall_mem_nil _) hdistinct h).1
  have hhash := (isWhole_of_mem_projectChunks (List.head_mem exists_chunk_of_repeatedDigits)).2
  rw [hashes_bound hhash] at hhashes
  exact absurd hhashes.of_map (by decide +kernel)

end SourceChunks
