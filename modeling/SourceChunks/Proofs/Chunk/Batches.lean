import Mathlib
import SourceChunks.Chunk.Shared
import SourceChunks.Proofs.Chunk.Deduplication
import SourceChunks.Proofs.Chunk.Schedule
import SourceChunks.Proofs.Document.Persistence

/-!
# Lists that are sifted one after another

A filter that sifts several lists one after another keeps and drops what it would of all of
them in a row.  A chunk is kept exactly if it is the first with its hash, and the hash was not
known to begin with.  In another order, other chunks may be kept, but their hashes are the same.

Callers that share a filter have the lock one after another, so whatever comes between them,
each is given what the lists behind one another would give, in the order in which the lock was
given back.

* `chunksWhere`: the chunks that are, or are not, the first with their hashes.
* `kept_eq_chunksWhere`, `dropped_eq_chunksWhere`: how a list is divided.
* `getElem?_siftEach`, `flatMap_kept_siftEach`: several lists, one by one and in a row.
* `SharedFilter.Moves`: what one event can do; `moves_of_step`, `step_of_moves`.
* `SharedFilter.Consistent`: what holds of a shared filter throughout; `Consistent.moves`,
  `Consistent.run`, `Consistent.of_isDone`, `Consistent.completes`.
* `batches_sifted`: what sifting several lists comes to.
-/

namespace SourceChunks

section

variable {seen known : Seen} {chunk : Chunk} {before chunks front rest : List Chunk}
  {batch : List Chunk} {batches batches' : List (List Chunk)}

/-! ## The first chunk with a hash -/

/-- Whether a chunk has a hash that is not in a set, and that no chunk before it has. -/
def isFirst (seen : Seen) (before : List Chunk) (chunk : Chunk) : Bool :=
  !seen.contains chunk.contentHash && before.all (·.contentHash != chunk.contentHash)

/-- The chunks of a list that are the first with their hashes, or those that are not, where
some chunks come before the list. -/
def chunksWhere (first : Bool) (seen : Seen) (before chunks : List Chunk) : List Chunk :=
  (chunks.zipIdx.filter fun (chunk, i) =>
    isFirst seen (before ++ chunks.take i) chunk == first).map (·.1)

@[simp] theorem isFirst_eq_true_iff : isFirst seen before chunk = true ↔
    chunk.contentHash ∉ seen ∧ chunk.contentHash ∉ before.map (·.contentHash) := by
  simp [isFirst]

@[simp] theorem chunksWhere_concat (first : Bool) (seen : Seen) (before chunks : List Chunk)
    (chunk : Chunk) : chunksWhere first seen before (chunks ++ [chunk]) =
      chunksWhere first seen before chunks ++
        if isFirst seen (before ++ chunks) chunk = first then [chunk] else [] := by
  have hfront : (chunks.zipIdx.filter fun (other, i) =>
        isFirst seen (before ++ (chunks ++ [chunk]).take i) other == first) =
      chunks.zipIdx.filter fun (other, i) =>
        isFirst seen (before ++ chunks.take i) other == first := by
    refine List.filter_congr fun ⟨other, i⟩ hplace => ?_
    have hlt : i < chunks.length := (List.mem_zipIdx' hplace).1
    show (isFirst seen (before ++ (chunks ++ [chunk]).take i) other == first) = _
    rw [List.take_append_of_le_length hlt.le]
  rw [chunksWhere, List.zipIdx_append, List.filter_append, List.map_append, hfront, chunksWhere]
  by_cases h : isFirst seen (before ++ chunks) chunk = first
  · simp [h]
  · simp [h]

theorem chunksWhere_sublist (first : Bool) (seen : Seen) (before chunks : List Chunk) :
    (chunksWhere first seen before chunks).Sublist chunks := by
  have hfst : chunks.zipIdx.map (·.1) = chunks := List.zipIdx_map_fst 0 chunks
  nth_rewrite 2 [← hfst]
  exact List.filter_sublist.map _

/-- Every chunk of a list is the first with its hash or it is not. -/
theorem chunksWhere_perm (seen : Seen) (before chunks : List Chunk) :
    (chunksWhere true seen before chunks ++ chunksWhere false seen before chunks).Perm chunks := by
  have hfst : chunks.zipIdx.map (·.1) = chunks := List.zipIdx_map_fst 0 chunks
  have hperm := (List.filter_append_perm (fun place : Chunk × Nat =>
    isFirst seen (before ++ chunks.take place.2) place.1 == true) chunks.zipIdx).map (·.1)
  rw [hfst, List.map_append] at hperm
  simpa [chunksWhere] using hperm

/-! ## One list -/

theorem dropped_of_mem (h : chunk.contentHash ∈ seen) (rest : List Chunk) :
    (sift seen (chunk :: rest)).dropped = chunk :: (sift seen rest).dropped := by
  rw [sift, if_pos (Std.HashSet.mem_iff_contains.mp h)]

theorem dropped_of_notMem (h : chunk.contentHash ∉ seen) (rest : List Chunk) :
    (sift seen (chunk :: rest)).dropped =
      (sift (seen.insert chunk.contentHash) rest).dropped := by
  rw [sift, if_neg (fun hcontains => h (Std.HashSet.mem_iff_contains.mpr hcontains))]

theorem dropped_append (seen : Seen) (front rest : List Chunk) :
    (sift seen (front ++ rest)).dropped =
      (sift seen front).dropped ++ (sift (sift seen front).seen rest).dropped := by
  induction front generalizing seen with
  | nil => rfl
  | cons chunk front ih =>
      rw [List.cons_append]
      by_cases h : chunk.contentHash ∈ seen
      · rw [dropped_of_mem h, dropped_of_mem h, (sift_of_mem h front).2, ih, List.cons_append]
      · rw [dropped_of_notMem h, dropped_of_notMem h, (sift_of_notMem h front).2, ih]

/-- Two lists are sifted one after the other. -/
theorem sift_append_eq (seen : Seen) (front rest : List Chunk) :
    sift seen (front ++ rest) =
      ⟨(sift seen front).kept ++ (sift (sift seen front).seen rest).kept,
        (sift seen front).dropped ++ (sift (sift seen front).seen rest).dropped,
        (sift (sift seen front).seen rest).seen⟩ := by
  rw [← (sift_append seen front rest).1, ← (sift_append seen front rest).2,
    ← dropped_append seen front rest]

/-- A chunk with a known hash is dropped. -/
theorem sift_concat_of_mem (h : chunk.contentHash ∈ (sift seen chunks).seen) :
    sift seen (chunks ++ [chunk]) =
      ⟨(sift seen chunks).kept, (sift seen chunks).dropped ++ [chunk],
        (sift seen chunks).seen⟩ := by
  obtain ⟨hkept, hseen⟩ := sift_of_mem h []
  rw [sift_append_eq, hkept, hseen, dropped_of_mem h]
  simp [sift]

/-- A chunk with a new hash is kept. -/
theorem sift_concat_of_notMem (h : chunk.contentHash ∉ (sift seen chunks).seen) :
    sift seen (chunks ++ [chunk]) =
      ⟨(sift seen chunks).kept ++ [chunk], (sift seen chunks).dropped,
        (sift seen chunks).seen.insert chunk.contentHash⟩ := by
  obtain ⟨hkept, hseen⟩ := sift_of_notMem h []
  rw [sift_append_eq, hkept, hseen, dropped_of_notMem h]
  simp [sift]

/-- A list is divided into the first chunks with new hashes and the others, where the known
hashes are those of a set and of the chunks before the list. -/
theorem sift_eq_chunksWhere
    (hknown : ∀ hash, hash ∈ known ↔ hash ∈ seen ∨ hash ∈ before.map (·.contentHash))
    (chunks : List Chunk) :
    (sift known chunks).kept = chunksWhere true seen before chunks ∧
      (sift known chunks).dropped = chunksWhere false seen before chunks := by
  -- From the back: whether a chunk is the first is decided by what comes before it.
  induction chunks using List.reverseRecOn with
  | nil => exact ⟨rfl, rfl⟩
  | append_singleton chunks chunk ih =>
      have hfirst : chunk.contentHash ∉ (sift known chunks).seen ↔
          isFirst seen (before ++ chunks) chunk = true := by
        rw [isFirst_eq_true_iff, mem_seen_sift, hknown, List.map_append, List.mem_append]
        tauto
      rw [chunksWhere_concat, chunksWhere_concat, ← ih.1, ← ih.2]
      by_cases h : chunk.contentHash ∈ (sift known chunks).seen
      · have hfalse : isFirst seen (before ++ chunks) chunk = false := by
          rw [← Bool.not_eq_true, ← hfirst]
          exact not_not_intro h
        rw [sift_concat_of_mem h, hfalse]
        simp
      · rw [sift_concat_of_notMem h, hfirst.mp h]
        simp

@[simp] theorem length_kept_add_dropped (seen : Seen) (chunks : List Chunk) :
    (sift seen chunks).kept.length + (sift seen chunks).dropped.length = chunks.length := by
  induction chunks using List.reverseRecOn with
  | nil => rfl
  | append_singleton chunks chunk ih =>
      by_cases h : chunk.contentHash ∈ (sift seen chunks).seen
      · rw [sift_concat_of_mem h]
        simp only [List.length_append, List.length_singleton]
        omega
      · rw [sift_concat_of_notMem h]
        simp only [List.length_append, List.length_singleton]
        omega

theorem nodup_hashes_kept (seen : Seen) (chunks : List Chunk) :
    ((sift seen chunks).kept.map (·.contentHash)).Nodup := by
  induction chunks generalizing seen with
  | nil => exact List.nodup_nil
  | cons chunk chunks ih =>
      by_cases h : chunk.contentHash ∈ seen
      · rw [(sift_of_mem h chunks).1]
        exact ih seen
      · rw [(sift_of_notMem h chunks).1, List.map_cons, List.nodup_cons]
        refine ⟨fun hmem => ?_, ih _⟩
        exact (mem_hashes_kept.mp hmem).2 Std.HashSet.mem_insert_self

/-- Nothing more is dropped of what was kept. -/
theorem sift_of_nodup (h : (chunks.map (·.contentHash)).Nodup) :
    (sift ∅ chunks).kept = chunks ∧ (sift ∅ chunks).dropped = [] := by
  have hkept : (sift ∅ chunks).kept = chunks :=
    kept_eq_iff.mpr ⟨h, fun _ _ => Std.HashSet.not_mem_empty⟩
  have hlength := length_kept_add_dropped ∅ chunks
  rw [hkept] at hlength
  exact ⟨hkept, List.eq_nil_of_length_eq_zero (by omega)⟩

/-! ## Several lists -/

@[simp] theorem seenBehind_append (seen : Seen) (batches batches' : List (List Chunk)) :
    seenBehind seen (batches ++ batches') = seenBehind (seenBehind seen batches) batches' :=
  List.foldl_append

theorem seenBehind_concat (seen : Seen) (batches : List (List Chunk)) (batch : List Chunk) :
    seenBehind seen (batches ++ [batch]) = (sift (seenBehind seen batches) batch).seen :=
  seenBehind_append seen batches [batch]

@[simp] theorem length_siftEach (seen : Seen) (batches : List (List Chunk)) :
    (siftEach seen batches).length = batches.length := by
  induction batches generalizing seen with
  | nil => rfl
  | cons batch batches ih => rw [siftEach, List.length_cons, ih, List.length_cons]

theorem siftEach_append (seen : Seen) (batches batches' : List (List Chunk)) :
    siftEach seen (batches ++ batches') =
      siftEach seen batches ++ siftEach (seenBehind seen batches) batches' := by
  induction batches generalizing seen with
  | nil => rfl
  | cons batch batches ih =>
      rw [List.cons_append, siftEach, siftEach, ih, List.cons_append]
      rfl

/-- Each list is sifted with what is known behind those before it. -/
theorem getElem?_siftEach (seen : Seen) (batches : List (List Chunk)) (k : Nat) :
    (siftEach seen batches)[k]? =
      batches[k]?.map (sift (seenBehind seen (batches.take k))) := by
  induction batches generalizing seen k with
  | nil => rfl
  | cons batch batches ih =>
      cases k with
      | zero => rfl
      | succ k =>
          rw [siftEach, List.getElem?_cons_succ, ih, List.getElem?_cons_succ]
          rfl

theorem seenBehind_eq (seen : Seen) (batches : List (List Chunk)) :
    seenBehind seen batches = (sift seen batches.flatten).seen := by
  induction batches generalizing seen with
  | nil => rfl
  | cons batch batches ih => rw [List.flatten_cons, (sift_append _ _ _).2, ← ih]; rfl

@[simp] theorem mem_seenBehind {hash : String} : hash ∈ seenBehind seen batches ↔
    hash ∈ seen ∨ hash ∈ batches.flatten.map (·.contentHash) := by
  rw [seenBehind_eq, mem_seen_sift]

@[simp] theorem flatMap_kept_siftEach (seen : Seen) (batches : List (List Chunk)) :
    (siftEach seen batches).flatMap (·.kept) = (sift seen batches.flatten).kept := by
  induction batches generalizing seen with
  | nil => rfl
  | cons batch batches ih =>
      rw [siftEach, List.flatMap_cons, ih, List.flatten_cons, (sift_append _ _ _).1]

@[simp] theorem flatMap_dropped_siftEach (seen : Seen) (batches : List (List Chunk)) :
    (siftEach seen batches).flatMap (·.dropped) = (sift seen batches.flatten).dropped := by
  induction batches generalizing seen with
  | nil => rfl
  | cons batch batches ih =>
      rw [siftEach, List.flatMap_cons, ih, List.flatten_cons, dropped_append]

/-- The hashes of some chunks. -/
def hashesOf (chunks : List Chunk) : Set String :=
  {hash | hash ∈ chunks.map (·.contentHash)}

/-- What sifting some lists one after another should come to, where some hashes are known: what
is given for each of them, and the hashes that are known in the end. -/
structure SiftedRight (seen : Seen) (batches : List (List Chunk)) (results : List Sifted)
    (known : Seen) : Prop where
  /-- What is kept and dropped of the lists in a row. -/
  together : results.flatMap (·.kept) = (sift seen batches.flatten).kept ∧
    results.flatMap (·.dropped) = (sift seen batches.flatten).dropped
  /-- Every chunk of a list is kept or dropped in its place, by whether it is the first with its
  hash among all chunks of this and the earlier lists. -/
  divided : results.map (fun result => (result.kept, result.dropped)) =
    batches.zipIdx.map fun (batch, k) =>
      (chunksWhere true seen (batches.take k).flatten batch,
        chunksWhere false seen (batches.take k).flatten batch)
  distinct : ((results.flatMap (·.kept)).map (·.contentHash)).Nodup
  hashes : hashesOf (results.flatMap (·.kept)) = hashesOf batches.flatten \ {hash | hash ∈ seen}
  known : {hash | hash ∈ known} = {hash | hash ∈ seen} ∪ hashesOf batches.flatten
  /-- What is kept stays when it is sifted again. -/
  settled : (sift ∅ (results.flatMap (·.kept))).kept = results.flatMap (·.kept) ∧
    (sift ∅ (results.flatMap (·.kept))).dropped = [] ∧
    ∀ result ∈ results, (sift ∅ result.kept).kept = result.kept ∧
      (sift ∅ result.kept).dropped = []

theorem divided_siftEach (seen : Seen) (batches : List (List Chunk)) :
    (siftEach seen batches).map (fun result => (result.kept, result.dropped)) =
      batches.zipIdx.map fun (batch, k) =>
        (chunksWhere true seen (batches.take k).flatten batch,
          chunksWhere false seen (batches.take k).flatten batch) := by
  refine List.ext_getElem? fun k => ?_
  rw [List.getElem?_map, getElem?_siftEach, List.getElem?_map, List.getElem?_zipIdx]
  cases batches[k]? with
  | none => rfl
  | some batch =>
      have hknown : ∀ hash, hash ∈ seenBehind seen (batches.take k) ↔
          hash ∈ seen ∨ hash ∈ (batches.take k).flatten.map (·.contentHash) :=
        fun hash => mem_seenBehind
      obtain ⟨hkept, hdropped⟩ := sift_eq_chunksWhere hknown batch
      simp [hkept, hdropped]

theorem siftedRight_siftEach (seen : Seen) (batches : List (List Chunk)) :
    SiftedRight seen batches (siftEach seen batches) (seenBehind seen batches) where
  together := ⟨flatMap_kept_siftEach seen batches, flatMap_dropped_siftEach seen batches⟩
  divided := divided_siftEach seen batches
  distinct := by
    rw [flatMap_kept_siftEach]
    exact nodup_hashes_kept seen batches.flatten
  hashes := by
    ext hash
    rw [flatMap_kept_siftEach]
    exact mem_hashes_kept
  known := by
    ext hash
    exact mem_seenBehind
  settled := by
    rw [flatMap_kept_siftEach]
    obtain ⟨hkept, hdropped⟩ := sift_of_nodup (nodup_hashes_kept seen batches.flatten)
    refine ⟨hkept, hdropped, fun result hresult => ?_⟩
    obtain ⟨k, hk⟩ := List.mem_iff_getElem?.mp hresult
    rw [getElem?_siftEach] at hk
    obtain ⟨batch, -, rfl⟩ := Option.map_eq_some_iff.mp hk
    exact sift_of_nodup (nodup_hashes_kept _ batch)

/-- The hashes that are kept, and those that are known in the end, do not depend on the order
of the lists. -/
theorem hashes_siftEach_perm (seen : Seen) (h : batches'.Perm batches) :
    hashesOf ((siftEach seen batches').flatMap (·.kept)) =
        hashesOf ((siftEach seen batches).flatMap (·.kept)) ∧
      {hash | hash ∈ seenBehind seen batches'} = {hash | hash ∈ seenBehind seen batches} := by
  have hsame : hashesOf batches'.flatten = hashesOf batches.flatten := by
    ext hash
    exact (h.flatten.map _).mem_iff
  rw [(siftedRight_siftEach seen batches').hashes, (siftedRight_siftEach seen batches).hashes,
    (siftedRight_siftEach seen batches').known, (siftedRight_siftEach seen batches).known, hsame]
  exact ⟨rfl, rfl⟩

end

/-! ## Callers of one filter -/

/-- How many events it takes until a caller is finished. -/
def Caller.left : Caller → Nat
  | waiting batch => batch.length + 2
  | sifting rest _ _ => rest.length + 1
  | finished _ _ => 0

/-- What a caller has kept so far. -/
def Caller.kept : Caller → List Chunk
  | waiting _ => []
  | sifting _ kept _ => kept
  | finished kept _ => kept

namespace SharedFilter

variable {seen : Seen} {batches : List (List Chunk)} {order : List Nat}
  {filter filter' : SharedFilter} {event : FilterEvent}

/-- What one event can do to a filter and its callers. -/
inductive Moves : SharedFilter → FilterEvent → SharedFilter → Prop
  | enter {seen : Seen} {callers : List Caller} {i : Nat} {batch : List Chunk}
      (h : callers[i]? = some (.waiting batch)) :
      Moves ⟨seen, none, callers⟩ (.enter i) ⟨seen, some i, callers.set i (.sifting batch [] [])⟩
  | drop {seen : Seen} {holder : Option Nat} {callers : List Caller} {i : Nat} {chunk : Chunk}
      {rest kept dropped : List Chunk}
      (h : callers[i]? = some (.sifting (chunk :: rest) kept dropped))
      (hknown : chunk.contentHash ∈ seen) :
      Moves ⟨seen, holder, callers⟩ (.advance i)
        ⟨seen, holder, callers.set i (.sifting rest kept (dropped ++ [chunk]))⟩
  | keep {seen : Seen} {holder : Option Nat} {callers : List Caller} {i : Nat} {chunk : Chunk}
      {rest kept dropped : List Chunk}
      (h : callers[i]? = some (.sifting (chunk :: rest) kept dropped))
      (hnew : chunk.contentHash ∉ seen) :
      Moves ⟨seen, holder, callers⟩ (.advance i)
        ⟨seen.insert chunk.contentHash, holder,
          callers.set i (.sifting rest (kept ++ [chunk]) dropped)⟩
  | leave {seen : Seen} {holder : Option Nat} {callers : List Caller} {i : Nat}
      {kept dropped : List Chunk} (h : callers[i]? = some (.sifting [] kept dropped)) :
      Moves ⟨seen, holder, callers⟩ (.leave i)
        ⟨seen, none, callers.set i (.finished kept dropped)⟩

theorem moves_of_step (h : filter.step event = some filter') : Moves filter event filter' := by
  obtain ⟨seen, holder, callers⟩ := filter
  cases event with
  | enter i =>
      simp only [step] at h
      split at h
      · rename_i batch hcaller
        obtain rfl := Option.some.inj h
        exact .enter hcaller
      · contradiction
  | advance i =>
      simp only [step] at h
      split at h
      · rename_i chunk rest kept dropped hcaller
        split_ifs at h with hknown
        · obtain rfl := Option.some.inj h
          exact .drop hcaller (Std.HashSet.mem_iff_contains.mpr hknown)
        · obtain rfl := Option.some.inj h
          exact .keep hcaller fun hmem => hknown (Std.HashSet.mem_iff_contains.mp hmem)
      · contradiction
  | leave i =>
      simp only [step] at h
      split at h
      · rename_i kept dropped hcaller
        obtain rfl := Option.some.inj h
        exact .leave hcaller
      · contradiction

theorem step_of_moves (h : Moves filter event filter') : filter.step event = some filter' := by
  cases h with
  | enter h => simp only [step, h]
  | drop h hknown => simp only [step, h, if_pos (Std.HashSet.mem_iff_contains.mp hknown)]
  | keep h hnew =>
      simp only [step, h, if_neg fun hknown => hnew (Std.HashSet.mem_iff_contains.mpr hknown)]
  | leave h => simp only [step, h]

/-! ## What holds throughout -/

/-- Some of the lists, in the order in which their callers gave the lock back. -/
def inOrder (batches : List (List Chunk)) (order : List Nat) : List (List Chunk) :=
  order.map fun i => batches[i]?.getD []

/-- What holds of a filter whose callers have the given lists, where `order` tells who has given
the lock back. -/
structure Consistent (seen : Seen) (batches : List (List Chunk)) (order : List Nat)
    (filter : SharedFilter) : Prop where
  nodup : order.Nodup
  callers_length : filter.callers.length = batches.length
  /-- Those who have given the lock back have what the lists in their order give. -/
  finished : ∀ (k i : Nat), order[k]? = some i → ∃ result,
    (siftEach seen (inOrder batches order))[k]? = some result ∧
      filter.callers[i]? = some (.finished result.kept result.dropped)
  waiting : ∀ (i : Nat) (batch : List Chunk), batches[i]? = some batch → i ∉ order →
    filter.holder ≠ some i → filter.callers[i]? = some (.waiting batch)
  free : filter.holder = none → filter.seen = seenBehind seen (inOrder batches order)
  /-- Who has the lock has gone through the first chunks of its list. -/
  held : ∀ i, filter.holder = some i → i ∉ order ∧ ∃ front rest,
    batches[i]? = some (front ++ rest) ∧
      filter.seen = (sift (seenBehind seen (inOrder batches order)) front).seen ∧
      filter.callers[i]? = some (.sifting rest
        (sift (seenBehind seen (inOrder batches order)) front).kept
        (sift (seenBehind seen (inOrder batches order)) front).dropped)

/-- Who gives the lock back comes behind those who did before. -/
def orderBehind (order : List Nat) : FilterEvent → List Nat
  | .leave i => order ++ [i]
  | _ => order

theorem Consistent.start (seen : Seen) (batches : List (List Chunk)) :
    Consistent seen batches [] (start seen batches) where
  nodup := List.nodup_nil
  callers_length := List.length_map _
  finished := by simp
  waiting := by
    intro i batch hbatch _ _
    rw [SharedFilter.start, List.getElem?_map, hbatch, Option.map_some]
  free := fun _ => rfl
  held := by simp [SharedFilter.start]

namespace Consistent

theorem not_finished (h : Consistent seen batches order filter) {i : Nat} {caller : Caller}
    (hcaller : filter.callers[i]? = some caller) (hfinished : caller.isFinished = false) :
    i ∉ order := by
  intro hmem
  obtain ⟨k, hk⟩ := List.mem_iff_getElem?.mp hmem
  obtain ⟨result, -, hresult⟩ := h.finished k i hk
  rw [hcaller, Option.some.injEq] at hresult
  rw [hresult] at hfinished
  contradiction

theorem exists_batch (h : Consistent seen batches order filter) {i : Nat} {caller : Caller}
    (hcaller : filter.callers[i]? = some caller) : ∃ batch, batches[i]? = some batch := by
  have hlt := (List.getElem?_eq_some_iff.mp hcaller).1
  rw [h.callers_length] at hlt
  exact ⟨_, List.getElem?_eq_getElem hlt⟩

/-- Only who has the lock goes through its list. -/
theorem holder_of_sifting (h : Consistent seen batches order filter) {i : Nat}
    {rest kept dropped : List Chunk}
    (hcaller : filter.callers[i]? = some (.sifting rest kept dropped)) :
    filter.holder = some i := by
  by_contra hne
  obtain ⟨batch, hbatch⟩ := h.exists_batch hcaller
  have hwaiting := h.waiting i batch hbatch (h.not_finished hcaller rfl) hne
  simp [hcaller] at hwaiting

/-- What the caller that has the lock has done so far. -/
theorem exists_front (h : Consistent seen batches order filter) {i : Nat}
    {rest kept dropped : List Chunk}
    (hcaller : filter.callers[i]? = some (.sifting rest kept dropped)) :
    i ∉ order ∧ ∃ front, batches[i]? = some (front ++ rest) ∧
      sift (seenBehind seen (inOrder batches order)) front = ⟨kept, dropped, filter.seen⟩ := by
  obtain ⟨hnotMem, front, rest', hbatch, hseen, hcaller'⟩ := h.held i (h.holder_of_sifting hcaller)
  rw [hcaller, Option.some.injEq, Caller.sifting.injEq] at hcaller'
  obtain ⟨rfl, rfl, rfl⟩ := hcaller'
  exact ⟨hnotMem, front, hbatch, by rw [hseen]⟩

/-- A caller goes on with its list, or begins it. -/
theorem of_sifting {known : Seen} {i : Nat} {rest kept dropped : List Chunk}
    (h : Consistent seen batches order filter) (front : List Chunk) (hnotMem : i ∉ order)
    (hholder : filter.holder = none ∨ filter.holder = some i)
    (hbatch : batches[i]? = some (front ++ rest))
    (hfront : sift (seenBehind seen (inOrder batches order)) front = ⟨kept, dropped, known⟩) :
    Consistent seen batches order
      ⟨known, some i, filter.callers.set i (.sifting rest kept dropped)⟩ where
  nodup := h.nodup
  callers_length := by rw [List.length_set, h.callers_length]
  finished := by
    intro k j hj
    obtain ⟨result, hresult, hcaller⟩ := h.finished k j hj
    have hne : i ≠ j := fun heq => hnotMem (heq ▸ List.mem_of_getElem? hj)
    exact ⟨result, hresult, by rw [List.getElem?_set_ne hne, hcaller]⟩
  waiting := by
    intro j batch hj hmem hne
    have hij : i ≠ j := fun heq => hne (congrArg some heq)
    rw [List.getElem?_set_ne hij]
    refine h.waiting j batch hj hmem fun heq => ?_
    rcases hholder with hnone | hsome
    · rw [hnone] at heq
      contradiction
    · exact hne (hsome.symm.trans heq)
  free := by simp
  held := by
    intro j hj
    obtain rfl := Option.some.inj hj
    have hlt := (List.getElem?_eq_some_iff.mp hbatch).1
    rw [← h.callers_length] at hlt
    refine ⟨hnotMem, front, rest, hbatch, by rw [hfront], ?_⟩
    rw [hfront, List.getElem?_set_self hlt]

theorem of_leave {i : Nat} {kept dropped : List Chunk} (h : Consistent seen batches order filter)
    (hcaller : filter.callers[i]? = some (.sifting [] kept dropped)) :
    Consistent seen batches (order ++ [i])
      ⟨filter.seen, none, filter.callers.set i (.finished kept dropped)⟩ := by
  obtain ⟨hnotMem, front, hbatch, hfront⟩ := h.exists_front hcaller
  have horder : inOrder batches (order ++ [i]) = inOrder batches order ++ [front] := by
    rw [inOrder, List.map_append, List.map_singleton, hbatch, List.append_nil, Option.getD_some]
    rfl
  have hlength : (siftEach seen (inOrder batches order)).length = order.length := by
    rw [length_siftEach, inOrder, List.length_map]
  have hlt := (List.getElem?_eq_some_iff.mp hcaller).1
  constructor
  case nodup => exact List.nodup_append.mpr ⟨h.nodup, List.nodup_singleton i, by
    rintro j hj _ hi rfl
    exact hnotMem (List.mem_singleton.mp hi ▸ hj)⟩
  case callers_length => rw [List.length_set, h.callers_length]
  case finished =>
    intro k j hj
    rw [horder, siftEach_append]
    rcases Nat.lt_or_ge k order.length with hk | hk
    · rw [List.getElem?_append_left hk] at hj
      obtain ⟨result, hresult, hcaller'⟩ := h.finished k j hj
      have hne : i ≠ j := fun heq => hnotMem (heq ▸ List.mem_of_getElem? hj)
      refine ⟨result, ?_, by rw [List.getElem?_set_ne hne, hcaller']⟩
      rw [List.getElem?_append_left (by rwa [hlength]), hresult]
    · rw [List.getElem?_append_right hk, List.getElem?_singleton] at hj
      split_ifs at hj with hzero
      obtain rfl := Option.some.inj hj
      refine ⟨⟨kept, dropped, filter.seen⟩, ?_, List.getElem?_set_self hlt⟩
      rw [List.getElem?_append_right (by omega), hlength, hzero, siftEach, hfront,
        List.getElem?_cons_zero]
  case waiting =>
    intro j batch hj hmem _
    rw [List.mem_append, List.mem_singleton, not_or] at hmem
    rw [List.getElem?_set_ne (Ne.symm hmem.2)]
    refine h.waiting j batch hj hmem.1 fun heq => ?_
    rw [h.holder_of_sifting hcaller] at heq
    exact hmem.2 (Option.some.inj heq).symm
  case free =>
    intro _
    rw [horder, seenBehind_concat, hfront]
  case held => simp

/-- An event keeps what holds of a filter. -/
theorem moves (h : Consistent seen batches order filter) (hmoves : Moves filter event filter') :
    Consistent seen batches (orderBehind order event) filter' := by
  cases hmoves with
  | @enter known callers i batch hcaller =>
      have hnotMem := h.not_finished hcaller rfl
      obtain ⟨batch', hbatch⟩ := h.exists_batch hcaller
      have hwaiting := h.waiting i batch' hbatch hnotMem (by simp)
      rw [hcaller, Option.some.injEq, Caller.waiting.injEq] at hwaiting
      subst hwaiting
      exact h.of_sifting [] hnotMem (.inl rfl) hbatch (by rw [← h.free rfl]; rfl)
  | @drop known holder callers i chunk rest kept dropped hcaller hknown =>
      have hholder := h.holder_of_sifting hcaller
      obtain ⟨hnotMem, front, hbatch, hfront⟩ := h.exists_front hcaller
      obtain rfl : holder = some i := hholder
      refine h.of_sifting (front ++ [chunk]) hnotMem (.inr rfl) (by simpa using hbatch) ?_
      rw [sift_concat_of_mem (by rwa [hfront]), hfront]
  | @keep known holder callers i chunk rest kept dropped hcaller hnew =>
      have hholder := h.holder_of_sifting hcaller
      obtain ⟨hnotMem, front, hbatch, hfront⟩ := h.exists_front hcaller
      obtain rfl : holder = some i := hholder
      refine h.of_sifting (front ++ [chunk]) hnotMem (.inr rfl) (by simpa using hbatch) ?_
      rw [sift_concat_of_notMem (by rwa [hfront]), hfront]
  | leave hcaller => exact h.of_leave hcaller

theorem run {events : List FilterEvent} (h : Consistent seen batches order filter)
    (hrun : filter.run events = some filter') :
    Consistent seen batches (events.foldl orderBehind order) filter' := by
  induction events generalizing filter order with
  | nil =>
      obtain rfl := Option.some.inj hrun
      exact h
  | cons event events ih =>
      obtain ⟨next, hstep, hrest⟩ := Option.bind_eq_some_iff.mp hrun
      exact ih (h.moves (moves_of_step hstep)) hrest

/-- When all callers are finished, each has had its turn. -/
theorem of_isDone (h : Consistent seen batches order filter) (hdone : filter.isDone = true) :
    order.Perm (List.range batches.length) ∧
      filter.seen = seenBehind seen (inOrder batches order) ∧
      order.map (fun i => filter.callers[i]?) =
        (siftEach seen (inOrder batches order)).map fun result =>
          some (.finished result.kept result.dropped) := by
  have hfinished : ∀ (i : Nat) (caller : Caller), filter.callers[i]? = some caller →
      caller.isFinished = true :=
    fun i caller hcaller => List.all_eq_true.mp hdone caller (List.mem_of_getElem? hcaller)
  have hfree : filter.holder = none := by
    cases hholder : filter.holder with
    | none => rfl
    | some i =>
        obtain ⟨-, front, rest, -, -, hcaller⟩ := h.held i hholder
        exact absurd (hfinished i _ hcaller) (by simp [Caller.isFinished])
  have hmem : ∀ i, i ∈ order ↔ i ∈ List.range batches.length := by
    intro i
    rw [List.mem_range]
    constructor
    · intro hi
      obtain ⟨k, hk⟩ := List.mem_iff_getElem?.mp hi
      obtain ⟨result, -, hcaller⟩ := h.finished k i hk
      rw [← h.callers_length]
      exact (List.getElem?_eq_some_iff.mp hcaller).1
    · intro hlt
      by_contra hnotMem
      have hcaller := h.waiting i _ (List.getElem?_eq_getElem hlt) hnotMem (by simp [hfree])
      exact absurd (hfinished i _ hcaller) (by simp [Caller.isFinished])
  refine ⟨(List.perm_ext_iff_of_nodup h.nodup List.nodup_range).mpr hmem, h.free hfree, ?_⟩
  refine List.ext_getElem? fun k => ?_
  rw [List.getElem?_map, List.getElem?_map]
  cases hk : order[k]? with
  | none =>
      have hge := List.getElem?_eq_none_iff.mp hk
      rw [List.getElem?_eq_none (by simpa [length_siftEach, inOrder] using hge)]
      rfl
  | some i =>
      obtain ⟨result, hresult, hcaller⟩ := h.finished k i hk
      rw [hresult, Option.map_some, Option.map_some, hcaller]

end Consistent

/-! ## The way to the end -/

/-- How many events it takes until all callers are finished. -/
def left (filter : SharedFilter) : Nat :=
  (filter.callers.map Caller.left).sum

theorem left_set {callers : List Caller} {i : Nat} {caller : Caller} (behind : Caller)
    (h : callers[i]? = some caller) :
    ((callers.set i behind).map Caller.left).sum + caller.left =
      (callers.map Caller.left).sum + behind.left := by
  obtain ⟨front, rest, rfl, rfl⟩ := exists_append_of_getElem? h
  rw [Pool.set_append_cons]
  simp only [List.map_append, List.map_cons, List.sum_append, List.sum_cons]
  omega

theorem left_of_moves (h : Moves filter event filter') : filter.left = filter'.left + 1 := by
  cases h with
  | @enter _ _ _ batch h =>
      have hset := left_set (.sifting batch [] []) h
      simp only [Caller.left] at hset
      simp only [left]
      omega
  | @drop _ _ _ _ chunk rest kept dropped h =>
      have hset := left_set (.sifting rest kept (dropped ++ [chunk])) h
      simp only [Caller.left, List.length_cons] at hset
      simp only [left]
      omega
  | @keep _ _ _ _ chunk rest kept dropped h =>
      have hset := left_set (.sifting rest (kept ++ [chunk]) dropped) h
      simp only [Caller.left, List.length_cons] at hset
      simp only [left]
      omega
  | @leave _ _ _ _ kept dropped h =>
      have hset := left_set (.finished kept dropped) h
      simp only [Caller.left, List.length_nil] at hset
      simp only [left]
      omega

theorem left_of_run {events : List FilterEvent} (hrun : filter.run events = some filter') :
    filter.left = filter'.left + events.length := by
  induction events generalizing filter with
  | nil =>
      obtain rfl := Option.some.inj hrun
      rfl
  | cons event events ih =>
      obtain ⟨next, hstep, hrest⟩ := Option.bind_eq_some_iff.mp hrun
      rw [left_of_moves (moves_of_step hstep), ih hrest, List.length_cons]
      omega

/-- There is always something that can happen next, until all callers are finished. -/
theorem Consistent.progress (h : Consistent seen batches order filter)
    (hdone : filter.isDone = false) : ∃ event filter', Moves filter event filter' := by
  obtain ⟨known, holder, callers⟩ := filter
  cases holder with
  | some i =>
      obtain ⟨-, front, rest, -, -, hcaller⟩ := h.held i rfl
      cases rest with
      | nil => exact ⟨_, _, .leave hcaller⟩
      | cons chunk rest =>
          by_cases hknown : chunk.contentHash ∈ known
          · exact ⟨_, _, .drop hcaller hknown⟩
          · exact ⟨_, _, .keep hcaller hknown⟩
  | none =>
      obtain ⟨caller, hmem, hfinished⟩ := List.all_eq_false.mp hdone
      obtain ⟨i, hcaller⟩ := List.mem_iff_getElem?.mp hmem
      obtain ⟨batch, hbatch⟩ := h.exists_batch hcaller
      have hnotMem := h.not_finished hcaller (Bool.eq_false_of_not_eq_true hfinished)
      exact ⟨_, _, .enter (h.waiting i batch hbatch hnotMem (by simp))⟩

/-- All callers can always be brought to their end. -/
theorem Consistent.completes (h : Consistent seen batches order filter) :
    ∃ events filter', filter.run events = some filter' ∧ filter'.isDone = true := by
  induction hn : filter.left using Nat.strong_induction_on generalizing filter order with
  | _ n ih =>
      cases hdone : filter.isDone with
      | true => exact ⟨[], filter, rfl, hdone⟩
      | false =>
          obtain ⟨event, next, hmoves⟩ := h.progress hdone
          have hleft := left_of_moves hmoves
          obtain ⟨events, filter', hrun, hdone⟩ := ih next.left (by omega) (h.moves hmoves) rfl
          exact ⟨event :: events, filter', by
            rw [SharedFilter.run, step_of_moves hmoves, Option.bind_some, hrun], hdone⟩

/-- The callers that are finished have kept the same hashes as the lists behind one another. -/
theorem Consistent.hashes_of_isDone (h : Consistent seen batches order filter)
    (hdone : filter.isDone = true) :
    (inOrder batches order).Perm batches ∧
      hashesOf (filter.callers.flatMap Caller.kept) =
        hashesOf ((siftEach seen batches).flatMap (·.kept)) ∧
      {hash | hash ∈ filter.seen} = {hash | hash ∈ seenBehind seen batches} := by
  obtain ⟨horder, hseen, hcallers⟩ := h.of_isDone hdone
  have hperm : (inOrder batches order).Perm batches := by
    have hmap := horder.map fun i => batches[i]?.getD []
    have hall : (List.range batches.length).map (fun i => batches[i]?.getD []) = batches := by
      refine List.ext_getElem (by simp) fun i hi hi' => ?_
      simp [List.getElem?_eq_getElem hi']
    rwa [hall] at hmap
  have hkept : (filter.callers.flatMap Caller.kept).Perm
      ((siftEach seen (inOrder batches order)).flatMap (·.kept)) := by
    have hmap := (horder.map fun i => filter.callers[i]?).filterMap id
    have hall : (List.range batches.length).map (fun i => filter.callers[i]?) =
        filter.callers.map some := by
      rw [← h.callers_length]
      refine List.ext_getElem (by simp) fun i hi hi' => ?_
      have hlt : i < filter.callers.length := by simpa using hi
      simp [List.getElem?_eq_getElem hlt]
    rw [hcallers, hall] at hmap
    simpa [List.filterMap_map, Function.comp_def, List.flatMap_map, Caller.kept] using
      (hmap.flatMap_right Caller.kept).symm
  obtain ⟨hhashes, hknown⟩ := hashes_siftEach_perm seen hperm
  refine ⟨hperm, ?_, by rw [hseen, hknown]⟩
  rw [← hhashes]
  ext hash
  exact (hkept.map _).mem_iff

end SharedFilter

/-! ## Sifting several lists -/

/-- What is kept and dropped of several lists that are sifted one after another is what would be
of all of them in a row: of the chunks with one hash the first one is kept, if the hash was not
known, and all others are dropped.  Which hashes are kept, and which are known in the end, does
not depend on the order of the lists.

Callers that share a filter give the lock back in some order, and each is given what the lists
would give one after another in that order.  They never get stuck, and need two events each
besides one for every chunk. -/
theorem batches_sifted (seen : Seen) (batches : List (List Chunk)) :
    SiftedRight seen batches (siftEach seen batches) (seenBehind seen batches) ∧
    (∀ batches', batches'.Perm batches →
      hashesOf ((siftEach seen batches').flatMap (·.kept)) =
          hashesOf ((siftEach seen batches).flatMap (·.kept)) ∧
        {hash | hash ∈ seenBehind seen batches'} = {hash | hash ∈ seenBehind seen batches}) ∧
    ∀ events filter, (SharedFilter.start seen batches).run events = some filter →
      events.length ≤ (batches.map (·.length + 2)).sum ∧
      (∃ more done, filter.run more = some done ∧ done.isDone = true) ∧
      (filter.isDone = true →
        (∃ order : List Nat, order.Perm (List.range batches.length) ∧
          (SharedFilter.inOrder batches order).Perm batches ∧
          filter.seen = seenBehind seen (SharedFilter.inOrder batches order) ∧
          order.map (fun i => filter.callers[i]?) =
            (siftEach seen (SharedFilter.inOrder batches order)).map fun result =>
              some (.finished result.kept result.dropped)) ∧
        hashesOf (filter.callers.flatMap Caller.kept) =
          hashesOf ((siftEach seen batches).flatMap (·.kept)) ∧
        {hash | hash ∈ filter.seen} = {hash | hash ∈ seenBehind seen batches}) := by
  refine ⟨siftedRight_siftEach seen batches, fun batches' h => hashes_siftEach_perm seen h, ?_⟩
  intro events filter hrun
  have hfilter := (SharedFilter.Consistent.start seen batches).run hrun
  refine ⟨?_, hfilter.completes, fun hdone => ?_⟩
  · have hleft := SharedFilter.left_of_run hrun
    simp only [SharedFilter.left, SharedFilter.start, List.map_map, Function.comp_def,
      Caller.left] at hleft
    omega
  · obtain ⟨horder, hseen, hcallers⟩ := hfilter.of_isDone hdone
    obtain ⟨hperm, hhashes, hknown⟩ := hfilter.hashes_of_isDone hdone
    exact ⟨⟨_, horder, hperm, hseen, hcallers⟩, hhashes, hknown⟩

/-- A chunk of an import with a given hash. -/
def Chunk.hashed (file hash : String) : Chunk :=
  { Chunk.importAt 1 with file := file, contentHash := hash }

/-- Two lists with one hash in common. -/
def twoBatches : List (List Chunk) :=
  [[.hashed "a.bal" "x", .hashed "a.bal" "y"], [.hashed "b.bal" "y", .hashed "b.bal" "z"]]

/-- The caller with the second list has the lock first. -/
def secondEnters : List FilterEvent :=
  [.enter 1, .advance 1, .advance 1, .leave 1, .enter 0, .advance 0, .advance 0, .leave 0]

theorem batches_sifted_secondEnters :
    ∃ filter, (SharedFilter.start {"x"} twoBatches).run secondEnters = some filter ∧
      filter.isDone = true ∧
      secondEnters.length ≤ (twoBatches.map (·.length + 2)).sum ∧
      hashesOf (filter.callers.flatMap Caller.kept) =
        hashesOf ((siftEach {"x"} twoBatches).flatMap (·.kept)) := by
  obtain ⟨-, -, hends⟩ := batches_sifted {"x"} twoBatches
  obtain ⟨filter, hrun, hdone⟩ :
      ∃ filter, (SharedFilter.start {"x"} twoBatches).run secondEnters = some filter ∧
        filter.isDone = true := by
    simp [secondEnters, twoBatches, SharedFilter.start, SharedFilter.run, SharedFilter.step,
      SharedFilter.isDone, Caller.isFinished, Chunk.hashed]
  obtain ⟨hlength, -, hshared⟩ := hends _ _ hrun
  exact ⟨filter, hrun, hdone, hlength, (hshared hdone).2.1⟩

end SourceChunks
