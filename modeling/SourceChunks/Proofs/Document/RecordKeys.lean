import Mathlib
import SourceChunks.Document.Record
import SourceChunks.Proofs.Chunk.Bounding
import SourceChunks.Proofs.Chunk.Identity

/-!
# Keys of records

The key of a record is the digest of what its chunk says of its origin, and behind it the half
and the number of the part.  An origin can be taken apart again if the name of its file has no pair
of colons.  It says nothing of a column, so two declarations of a kind that are called the same and
begin on one line, such as two imports, get the same keys.

* `keySuffix_injective`: the half and the number of the part are read back from their text.
* `keys_bound`: the keys of what a chunk becomes at a limit.
* `Chunk.slot`: what decides whether the keys of two chunks differ.
* `nodup_slots_of_labels`: kind, name and first line are enough.
* `recordKeys_nodup_iff`: the keys of a project are distinct if and only if the slots of the chunks of
  each of its files are.
-/

namespace SourceChunks

/-! ## Halves and parts -/

/-- What stands behind the digest in a key. -/
def keySuffix (role : Option Role) (number : Option ℤ) : String :=
  (role.map fun r => "#" ++ r.name).getD "" ++ (number.map fun n => "#part" ++ toString n).getD ""

theorem Chunk.recordKey_eq (c : Chunk) : c.recordKey = c.id ++ keySuffix c.role c.partNumber? :=
  String.append_assoc

theorem keySuffix_injective {role role' : Option Role} {number number' : Option ℤ}
    (h : keySuffix role number = keySuffix role' number') : role = role' ∧ number = number' := by
  have hlist := congrArg String.toList h
  simp only [keySuffix, String.toList_append] at hlist
  rcases role with _ | _ | _ <;> rcases role' with _ | _ | _ <;> rcases number with _ | n <;>
    rcases number' with _ | n' <;>
    simp_all [Role.name, String.toList_append, String.toList_inj, Int.repr_inj]

/-! ## The keys of a chunk -/

/-- The numbers of what a chunk becomes at a limit.  A chunk within the limit has no number. -/
def partNumbers (limit : Limit) (chunk : Chunk) : List (Option ℤ) :=
  if chunk.content.length ≤ limit.size then [none]
  else (List.range (chunk.content.length ⌈/⌉ limit.size)).map fun i => some ((i + 1 : Nat) : ℤ)

theorem nodup_partNumbers (limit : Limit) (chunk : Chunk) : (partNumbers limit chunk).Nodup := by
  unfold partNumbers
  split_ifs
  · exact List.nodup_singleton none
  · refine List.nodup_range.map fun i j h => ?_
    simpa using h

/-- Two chunks have no number in common if one of them is cut and the other one is not, and
the number one in common if both are cut. -/
theorem disjoint_partNumbers_iff (limit : Limit) (chunk chunk' : Chunk) :
    (partNumbers limit chunk).Disjoint (partNumbers limit chunk') ↔
      ¬ (chunk.content.length ≤ limit.size ↔ chunk'.content.length ≤ limit.size) := by
  have hone : ∀ c : Chunk, ¬ c.content.length ≤ limit.size → some 1 ∈ partNumbers limit c := by
    intro c hlong
    rw [partNumbers, if_neg hlong]
    refine List.mem_map.mpr ⟨0, List.mem_range.mpr ?_, rfl⟩
    rw [ceilDiv_eq_succ limit.size_pos (by omega)]
    exact Nat.succ_pos _
  have hsome : ∀ c : Chunk, ¬ c.content.length ≤ limit.size → none ∉ partNumbers limit c := by
    intro c hlong
    simp [partNumbers, hlong]
  have hnone : ∀ c : Chunk, c.content.length ≤ limit.size → partNumbers limit c = [none] :=
    fun c hshort => if_pos hshort
  by_cases h : chunk.content.length ≤ limit.size <;> by_cases h' : chunk'.content.length ≤ limit.size
  · simp [hnone _ h, hnone _ h', h, h']
  · simpa [hnone _ h, h, h'] using hsome _ h'
  · simpa [hnone _ h', h, h'] using hsome _ h
  · simpa [h, h'] using fun hdisjoint => hdisjoint (hone _ h) (hone _ h')

/-- The keys of what a chunk becomes at a limit. -/
theorem keys_bound (limit : Limit) {chunk : Chunk} (hwhole : chunk.IsWhole) :
    (bound limit chunk).map Chunk.recordKey =
      (partNumbers limit chunk).map fun number => chunk.id ++ keySuffix chunk.role number := by
  have hbounded := boundedAt_bound limit chunk
  unfold BoundedAt at hbounded
  unfold partNumbers
  split_ifs at hbounded ⊢
  · rw [hbounded, List.map_singleton, List.map_singleton, Chunk.recordKey_eq, Chunk.partNumber?,
      hwhole.1]
    rfl
  · rw [← hbounded.count, List.map_map]
    refine List.ext_getElem (by simp) fun i hi hi' => ?_
    rw [List.length_map] at hi
    have hpart := hbounded.numbered i _ (List.getElem?_eq_getElem hi)
    rw [List.getElem_map, List.getElem_map, List.getElem_range, Chunk.recordKey_eq, hpart]
    have hnumber : ((i + 1 : Nat) : ℤ) != 0 := bne_iff_ne.mpr (by omega)
    rw [Chunk.partNumber?, Option.filter_some, if_pos hnumber]
    rfl

/-! ## Slots -/

/-- What a chunk says of its origin. -/
def Chunk.origin (chunk : Chunk) : String :=
  provenance chunk.file chunk.kind chunk.name chunk.position.startLine

/-- What decides whether the keys of two chunks differ: where the chunk comes from, which half
it is, and whether it is cut. -/
structure Slot where
  file : String
  kind : Kind
  name : Option String
  startLine : ℤ
  role : Option Role
  isCut : Bool
  deriving DecidableEq

/-- The slot of a chunk that is cut at a limit. -/
def Chunk.slot (limit : Limit) (chunk : Chunk) : Slot where
  file := chunk.file
  kind := chunk.kind
  name := chunk.name
  startLine := chunk.position.startLine
  role := chunk.role
  isCut := limit.size < chunk.content.length

/-- A chunk of a text before it is cut, as far as keys are concerned. -/
structure Chunk.IsKeyed (chunk : Chunk) : Prop where
  whole : chunk.IsWhole
  id : chunk.id = Sha256.hexDigest chunk.origin
  named : chunk.name = none ↔ chunk.kind = .importClause

theorem isKeyed_of_mem_wholeChunks {file text : String} {chunk : Chunk}
    (h : chunk ∈ wholeChunks file text) : chunk.IsKeyed ∧ chunk.file = file := by
  obtain ⟨d, -, hchunk⟩ := List.mem_flatMap.mp h
  have hdescribes := describes_of_mem_chunksOf hchunk
  refine ⟨⟨isWhole_of_mem_chunksOf hchunk, hdescribes.id, ?_⟩, hdescribes.file⟩
  rw [hdescribes.name, hdescribes.kind]
  obtain ⟨span, shape⟩ := d
  cases shape <;> simp [Declaration.name?, Declaration.kind, Shape.kind]

/-- Behind two digests, the same text stands only behind the same digest. -/
theorem digest_append_inj {text text' rest rest' : String}
    (h : Sha256.hexDigest text ++ rest = Sha256.hexDigest text' ++ rest') :
    Sha256.hexDigest text = Sha256.hexDigest text' ∧ rest = rest' := by
  have hlist := congrArg String.toList h
  rw [String.toList_append, String.toList_append] at hlist
  obtain ⟨hdigest, hrest⟩ :=
    List.append_inj hlist (by rw [Sha256.length_hexDigest, Sha256.length_hexDigest])
  exact ⟨String.toList_injective hdigest, String.toList_injective hrest⟩

section

variable {limit : Limit} {chunk chunk' : Chunk}

/-- The origin of a chunk tells all of its slot but the half and whether it is cut. -/
theorem Chunk.IsKeyed.origin_eq_iff (h : chunk.IsKeyed) (h' : chunk'.IsKeyed)
    (hfile : ¬ colons <:+: chunk.file.toList) (hfile' : ¬ colons <:+: chunk'.file.toList) :
    chunk.origin = chunk'.origin ↔ chunk.file = chunk'.file ∧ chunk.kind = chunk'.kind ∧
      chunk.name = chunk'.name ∧ chunk.position.startLine = chunk'.position.startLine := by
  constructor
  · intro horigin
    obtain ⟨hfiles, hkinds, hnames, hlines⟩ := provenance_injective hfile hfile' horigin
    refine ⟨hfiles, hkinds, ?_, hlines⟩
    have hnone : chunk.name = none ↔ chunk'.name = none := by rw [h.named, h'.named, hkinds]
    cases hname : chunk.name <;> cases hname' : chunk'.name <;> simp_all
  · rintro ⟨hfiles, hkinds, hnames, hlines⟩
    unfold Chunk.origin
    rw [hfiles, hkinds, hnames, hlines]

/-- Two chunks share no key if and only if their slots differ. -/
theorem disjoint_keys_iff {origins : Set String} (hdigest : Set.InjOn Sha256.hexDigest origins)
    (h : chunk.IsKeyed) (h' : chunk'.IsKeyed) (hmem : chunk.origin ∈ origins)
    (hmem' : chunk'.origin ∈ origins) (hfile : ¬ colons <:+: chunk.file.toList)
    (hfile' : ¬ colons <:+: chunk'.file.toList) :
    ((bound limit chunk).map Chunk.recordKey).Disjoint ((bound limit chunk').map Chunk.recordKey) ↔
      chunk.slot limit ≠ chunk'.slot limit := by
  have hslot : chunk.slot limit = chunk'.slot limit ↔ chunk.origin = chunk'.origin ∧
      chunk.role = chunk'.role ∧
        (chunk.content.length ≤ limit.size ↔ chunk'.content.length ≤ limit.size) := by
    rw [h.origin_eq_iff h' hfile hfile', ← not_lt, ← not_lt, not_iff_not, and_assoc, and_assoc,
      and_assoc]
    simp only [Chunk.slot, Slot.mk.injEq, decide_eq_decide]
  rw [keys_bound limit h.whole, keys_bound limit h'.whole, h.id, h'.id]
  constructor
  · intro hdisjoint heq
    obtain ⟨horigin, hrole, hcut⟩ := hslot.mp heq
    apply (disjoint_partNumbers_iff limit chunk chunk').not_left.mpr hcut
    intro number hnumber hnumber'
    refine hdisjoint (List.mem_map_of_mem hnumber) ?_
    rw [horigin, hrole]
    exact List.mem_map_of_mem hnumber'
  · intro hne key hkey hkey'
    obtain ⟨number, hnumber, rfl⟩ := List.mem_map.mp hkey
    obtain ⟨number', hnumber', heq⟩ := List.mem_map.mp hkey'
    obtain ⟨hids, hsuffix⟩ := digest_append_inj heq.symm
    obtain ⟨hrole, rfl⟩ := keySuffix_injective hsuffix
    refine hne (hslot.mpr ⟨hdigest hmem hmem' hids, hrole, ?_⟩)
    by_contra hcut
    exact (disjoint_partNumbers_iff limit chunk chunk').mpr hcut hnumber hnumber'

end

/-! ## The keys of a project -/

/-- The keys of the records of a project. -/
def recordKeys (chunker : Chunker) (files : List SourceFile) : List String :=
  (indexRecords (chunker.chunkFiles files)).map (·.key)

section

variable {chunker : Chunker} {files : List SourceFile}

/-- The chunks of a project before they are cut. -/
def projectChunks (files : List SourceFile) : List Chunk :=
  files.flatMap fun file => wholeChunks file.path file.text

theorem chunkFiles_eq (chunker : Chunker) (files : List SourceFile) :
    chunker.chunkFiles files = (projectChunks files).flatMap (bound chunker.limit) :=
  List.flatMap_assoc.symm

theorem recordKeys_eq (chunker : Chunker) (files : List SourceFile) :
    recordKeys chunker files =
      (projectChunks files).flatMap fun chunk => (bound chunker.limit chunk).map Chunk.recordKey := by
  rw [recordKeys, indexRecords, chunkFiles_eq, List.map_map, List.map_flatMap]
  rfl

theorem mem_projectChunks {chunk : Chunk} (h : chunk ∈ projectChunks files) :
    ∃ file ∈ files, chunk ∈ wholeChunks file.path file.text ∧ chunk.file = file.path ∧
      chunk.IsKeyed := by
  obtain ⟨file, hfile, hchunk⟩ := List.mem_flatMap.mp h
  obtain ⟨hkeyed, hpath⟩ := isKeyed_of_mem_wholeChunks hchunk
  exact ⟨file, hfile, hchunk, hpath, hkeyed⟩

/-- A chunk and the pieces that it is cut into say the same of their origin. -/
theorem exists_origin_of_mem_projectChunks (chunker : Chunker) {chunk : Chunk}
    (h : chunk ∈ projectChunks files) :
    ∃ piece ∈ chunker.chunkFiles files, chunk.origin = piece.origin := by
  obtain ⟨file, hfile, hchunk, -⟩ := mem_projectChunks h
  obtain ⟨piece, hpiece⟩ :=
    List.exists_mem_of_ne_nil _ (boundedAt_bound chunker.limit chunk).ne_nil
  refine ⟨piece, ?_, ?_⟩
  · rw [chunkFiles_eq]
    exact List.mem_flatMap.mpr ⟨chunk, h, hpiece⟩
  · rw [isPieceOf_of_mem_bound (isWhole_of_mem_wholeChunks hchunk).2 hpiece]
    rfl

/-- The chunks of one file have slots of their own if its declarations of each kind differ in
their name or their first line. -/
theorem nodup_slots_of_labels {limit : Limit} {file text : String}
    (h : ((declarationsOf text.toList).map fun d =>
      (d.kind, d.name?, (positionOf (LineIndex.ofText text.toList) d.span).startLine)).Nodup) :
    ((wholeChunks file text).map (Chunk.slot limit)).Nodup := by
  rw [wholeChunks, List.map_flatMap, List.nodup_flatMap]
  constructor
  · intro d _
    have hgroup := isGroup_chunksOf file text.toList (LineIndex.ofText text.toList) d
    unfold IsGroup at hgroup
    split_ifs at hgroup
    · obtain ⟨signature, content, hrole, hchunks⟩ := hgroup
      rw [hchunks]
      simp [Chunk.slot, hrole]
    · obtain ⟨chunk, -, hchunks⟩ := hgroup
      rw [hchunks]
      exact List.nodup_singleton _
  · refine (List.pairwise_map.mp h).imp fun {d d'} hne slot hslot hslot' => hne ?_
    obtain ⟨chunk, hchunk, rfl⟩ := List.mem_map.mp hslot
    obtain ⟨chunk', hchunk', heq⟩ := List.mem_map.mp hslot'
    have hd := describes_of_mem_chunksOf hchunk
    have hd' := describes_of_mem_chunksOf hchunk'
    have hkind := congrArg Slot.kind heq
    have hname := congrArg Slot.name heq
    have hline := congrArg Slot.startLine heq
    simp only [Chunk.slot, hd.kind, hd.name, hd.position, hd'.kind, hd'.name, hd'.position]
      at hkind hname hline
    rw [hkind, hname, hline]

/-- The keys of the records of a project are distinct if and only if no two chunks of a file
agree in their kind, name, first line and half, and in whether they are cut.  This holds for
files with different names that have no pair of colons, if no two of the origins that are
hashed have the same digest.  A kind, a name and a line are enough to tell the declarations of
most files apart, but nothing keeps two imports, or two variables of the same name, off one
line. -/
theorem recordKeys_nodup_iff (hpaths : (files.map (·.path)).Nodup)
    (hcolons : ∀ file ∈ files, ¬ colons <:+: file.path.toList)
    (hdigest : Set.InjOn Sha256.hexDigest
      {origin | ∃ chunk ∈ chunker.chunkFiles files, origin = chunk.origin}) :
    (recordKeys chunker files).Nodup ↔
      ∀ file ∈ files, ((wholeChunks file.path file.text).map (Chunk.slot chunker.limit)).Nodup := by
  have hslots : (recordKeys chunker files).Nodup ↔
      ((projectChunks files).map (Chunk.slot chunker.limit)).Nodup := by
    rw [recordKeys_eq, List.nodup_flatMap]
    have hbound : ∀ chunk ∈ projectChunks files,
        ((bound chunker.limit chunk).map Chunk.recordKey).Nodup := by
      intro chunk hchunk
      obtain ⟨-, -, -, -, hkeyed⟩ := mem_projectChunks hchunk
      rw [keys_bound chunker.limit hkeyed.whole]
      refine (nodup_partNumbers _ _).map fun number number' heq => ?_
      exact (keySuffix_injective (digest_append_inj (hkeyed.id ▸ heq)).2).2
    rw [and_iff_right hbound]
    refine Iff.trans ?_ List.pairwise_map.symm
    refine List.Pairwise.iff_of_mem fun {chunk chunk'} hchunk hchunk' => ?_
    obtain ⟨file, hfile, -, hpath, hkeyed⟩ := mem_projectChunks hchunk
    obtain ⟨file', hfile', -, hpath', hkeyed'⟩ := mem_projectChunks hchunk'
    exact disjoint_keys_iff hdigest hkeyed hkeyed'
      (exists_origin_of_mem_projectChunks chunker hchunk)
      (exists_origin_of_mem_projectChunks chunker hchunk')
      (hpath ▸ hcolons file hfile) (hpath' ▸ hcolons file' hfile')
  rw [hslots, projectChunks, List.map_flatMap, List.nodup_flatMap, and_iff_left]
  -- Chunks of different files differ in the name of the file.
  refine (List.pairwise_map.mp hpaths).imp fun {file file'} hne slot hslot hslot' => hne ?_
  obtain ⟨chunk, hchunk, rfl⟩ := List.mem_map.mp hslot
  obtain ⟨chunk', hchunk', heq⟩ := List.mem_map.mp hslot'
  rw [← (isKeyed_of_mem_wholeChunks hchunk).2, ← (isKeyed_of_mem_wholeChunks hchunk').2]
  exact (congrArg Slot.file heq).symm

end

/-- Two files that begin with the same import. -/
def sameImports : List SourceFile :=
  [⟨"a.bal", "import a;\nint x = 1;"⟩, ⟨"b.bal", "import a;"⟩]

theorem recordKeys_nodup_iff_sameImports :
    (sameImports.map (·.path)).Nodup ∧
      (∀ file ∈ sameImports, ¬ colons <:+: file.path.toList) ∧
      (recordKeys {} sameImports).Nodup := by
  have hpaths : (sameImports.map (·.path)).Nodup := by decide
  have hcolons : ∀ file ∈ sameImports, ¬ colons <:+: file.path.toList := by decide
  have hdigest : Set.InjOn Sha256.hexDigest
      {origin | ∃ chunk ∈ ({} : Chunker).chunkFiles sameImports, origin = chunk.origin} := by
    have hnodup : (((({} : Chunker).chunkFiles sameImports).map Chunk.origin).map
        Sha256.hexDigest).Nodup := by
      decide +kernel
    rintro _ ⟨chunk, hchunk, rfl⟩ _ ⟨chunk', hchunk', rfl⟩ heq
    exact List.inj_on_of_nodup_map hnodup (List.mem_map_of_mem hchunk)
      (List.mem_map_of_mem hchunk') heq
  have hlabels : ∀ file ∈ sameImports, ((declarationsOf file.text.toList).map fun d =>
      (d.kind, d.name?, (positionOf (LineIndex.ofText file.text.toList) d.span).startLine)).Nodup := by
    decide +kernel
  exact ⟨hpaths, hcolons, (recordKeys_nodup_iff hpaths hcolons hdigest).mpr
    fun file hfile => nodup_slots_of_labels (hlabels file hfile)⟩

/-- Two imports on one line have records with different texts under the same key. -/
theorem recordKeys_importsOnOneLine :
    ¬ (recordKeys {} [⟨"a.bal", "import a; import b;"⟩]).Nodup ∧
      ((indexRecords (Chunker.chunkFiles {} [⟨"a.bal", "import a; import b;"⟩])).map
        (·.text)).Nodup := by
  decide +kernel

end SourceChunks
