import Mathlib
import SourceChunks.CommandLine.Report
import SourceChunks.Proofs.Chunk.Batches
import SourceChunks.Proofs.Chunk.Bounding
import SourceChunks.Proofs.Chunk.Schedule
import SourceChunks.Proofs.Declaration.Listing
import SourceChunks.Proofs.Document.Persistence
import SourceChunks.Proofs.Except
import SourceChunks.Proofs.Files.Discovery

/-!
# Runs and their documents

A run on paths that are there loads their source files, divides the chunks of these into the
ones that are kept and the ones that are dropped, and saves what was kept.  The document is
found where the run says, with the kept chunks in it, and its text is the one that the chunk
command prints.  Saving fails if the file of the document cannot be made: its name holds the
last name of all the paths in a row, which may be longer than a name can be.

* `natAbs_le_of_mem_chunkText`: the numbers of the chunks of a text.
* `IsDivided`: a listing and what is kept and dropped of it.
* `HasRoomFor`: whether a file can be made.
* `IsSaved`: the document of a run in a tree.
* `run_saved`: what a run gives, and when it succeeds.
* `isTooLong_documentFileName`: where there is no room for a document.
-/

namespace SourceChunks

/-! ## The numbers of a listing -/

section

variable {limit : Limit} {file : String} {text : List Char} {chunk piece : Chunk} {span : Span}

theorem length_le_of_mem {α β : Type} (f : α → List β) {x : α} {items : List α} (hx : x ∈ items) :
    (f x).length ≤ (items.flatMap f).length := by
  rw [List.length_flatMap]
  exact List.le_sum_of_mem (List.mem_map_of_mem hx)

/-- A part is numbered among the parts of its chunk. -/
theorem natAbs_part_le (hwhole : chunk.IsWhole) (h : piece ∈ bound limit chunk) :
    ∀ n ∈ piece.part.toList ++ piece.partCount.toList, n.natAbs ≤ (bound limit chunk).length := by
  have hbounded := boundedAt_bound limit chunk
  rw [BoundedAt] at hbounded
  split_ifs at hbounded
  · rw [hbounded, List.mem_singleton] at h
    rw [h, hwhole.1, hwhole.2]
    simp
  · obtain ⟨i, hi⟩ := List.mem_iff_getElem?.mp h
    have hlt : i < (bound limit chunk).length := (List.getElem?_eq_some_iff.mp hi).1
    rw [hbounded.numbered i piece hi]
    intro n hn
    simp only [Option.toList_some, List.mem_append, List.mem_singleton] at hn
    rcases hn with rfl | rfl
    · exact hlt
    · exact le_rfl

theorem pointAt_le {offset : Nat} (hoffset : offset ≤ text.length) :
    ((LineIndex.ofText text).pointAt offset).line ≤ text.length + 1 ∧
      ((LineIndex.ofText text).pointAt offset).column ≤ text.length + 1 := by
  have htake : (text.take offset).length ≤ text.length := List.length_take_le' _ _
  rw [LineIndex.pointAt_eq_behind hoffset]
  constructor
  · exact Nat.succ_le_succ (List.count_le_length.trans htake)
  · refine Nat.succ_le_succ ((List.takeWhile_sublist _).length_le.trans ?_)
    rwa [List.length_reverse]

/-- Lines and columns are at most one more than the length of the text. -/
theorem natAbs_positionOf_le (hspan : span.start < span.stop) (hstop : span.stop ≤ text.length) :
    ∀ n ∈ [(positionOf (LineIndex.ofText text) span).startLine,
      (positionOf (LineIndex.ofText text) span).endLine,
      (positionOf (LineIndex.ofText text) span).startColumn,
      (positionOf (LineIndex.ofText text) span).endColumn], n.natAbs ≤ text.length + 1 := by
  obtain ⟨hline, hcolumn⟩ := pointAt_le (hspan.le.trans hstop)
  have hlast : max span.start (span.stop - 1) ≤ text.length := by omega
  obtain ⟨hline', hcolumn'⟩ := pointAt_le hlast
  intro n hn
  simp only [List.mem_cons, List.not_mem_nil, or_false] at hn
  rcases hn with rfl | rfl | rfl | rfl
  · exact hline
  · exact hline'
  · exact hcolumn
  · exact hcolumn'

/-- The numbers of the chunks of a text are at most one more than its length, or the number of
the chunks. -/
theorem natAbs_le_of_mem_chunkText {file text : String} (h : piece ∈ chunkText limit file text) :
    ∀ n ∈ piece.numbers,
      n.natAbs ≤ text.length + 1 ∨ n.natAbs ≤ (chunkText limit file text).length := by
  rw [chunkText_eq_flatMap] at h ⊢
  obtain ⟨d, hd, hpiece⟩ := List.mem_flatMap.mp h
  obtain ⟨chunk, hchunk, hbound⟩ := List.mem_flatMap.mp hpiece
  obtain ⟨kind, hfound⟩ := exists_found_of_mem_declarationsOf hd
  intro n hn
  rw [Chunk.numbers, List.append_assoc, List.mem_append,
    (describes_of_mem_bound hchunk hbound).position] at hn
  rcases hn with hn | hn
  · rw [← String.length_toList]
    exact .inl (natAbs_positionOf_le (start_lt_stop_of_mem_found hfound)
      (stop_le_of_mem_found hfound) n hn)
  · have hparts := natAbs_part_le (isWhole_of_mem_chunksOf hchunk) hbound n hn
    exact .inr ((hparts.trans (length_le_of_mem (bound limit) hchunk)).trans
      (length_le_of_mem (boundedChunks limit file text.toList) hd))

end

/-! ## What is kept and dropped -/

/-- The chunks of a listing are divided, in their order, into some that are kept and some that
are dropped: by whether they are the first with their hash among the known ones, if this is
asked for, and otherwise all are kept. -/
structure IsDivided (dedupe : Bool) (seen : Seen) (chunks kept dropped : List Chunk) : Prop where
  kept_sublist : kept.Sublist chunks
  dropped_sublist : dropped.Sublist chunks
  together : (kept ++ dropped).Perm chunks
  plain : dedupe = false → kept = chunks ∧ dropped = []
  deduped : dedupe = true →
    kept = chunksWhere true seen [] chunks ∧ dropped = chunksWhere false seen [] chunks

theorem isDivided_siftIf (dedupe : Bool) (seen : Seen) (chunks : List Chunk) :
    IsDivided dedupe seen chunks (Workflow.siftIf dedupe seen chunks).kept
      (Workflow.siftIf dedupe seen chunks).dropped := by
  cases dedupe with
  | false =>
      exact ⟨.refl _, List.nil_sublist _, .of_eq (List.append_nil chunks), fun _ => ⟨rfl, rfl⟩,
        nofun⟩
  | true =>
      have hknown : ∀ hash, hash ∈ seen ↔
          hash ∈ seen ∨ hash ∈ ([] : List Chunk).map (·.contentHash) := fun hash => by simp
      obtain ⟨hkept, hdropped⟩ := sift_eq_chunksWhere hknown chunks
      show IsDivided true seen chunks (sift seen chunks).kept (sift seen chunks).dropped
      rw [hkept, hdropped]
      exact ⟨chunksWhere_sublist _ _ _ _, chunksWhere_sublist _ _ _ _, chunksWhere_perm _ _ _,
        nofun, fun _ => ⟨rfl, rfl⟩⟩

/-! ## Saving -/

/-- A file can be made at a path in a directory that is there: the path can be followed, its
last name is not too long, and there is no directory at the path. -/
structure HasRoomFor (tree : Entry) (path : Path) : Prop where
  followed : Entry.textFault? path.text = none
  short : Entry.isTooLong path.name = false
  free : tree.hasDirectory path = false

/-- The numbers in a document about the chunks of some files have no more digits than can be
read. -/
structure IsReadable (sources : List SourceFile) (chunks : List Chunk) : Prop where
  count : Json.Short chunks.length
  lengths : ∀ source ∈ sources, Json.Short (source.text.length + 1 : Nat)

theorem IsReadable.numbers {chunker : Chunker} {sources : List SourceFile}
    (h : IsReadable sources (chunker.chunkFiles sources)) {chunk : Chunk}
    (hchunk : chunk ∈ chunker.chunkFiles sources) : ∀ n ∈ chunk.numbers, Json.Short n := by
  obtain ⟨source, hsource, hmem⟩ := List.mem_flatMap.mp hchunk
  intro n hn
  rcases natAbs_le_of_mem_chunkText hmem n hn with hle | hle
  · exact lt_of_le_of_lt hle (h.lengths source hsource)
  · exact lt_of_le_of_lt (hle.trans (length_le_of_mem chunker.chunkFile hsource)) h.count

/-- The document of some chunks of files is read back from where it stands. -/
theorem IsReadable.loadDocument {chunker : Chunker} {sources : List SourceFile}
    (h : IsReadable sources (chunker.chunkFiles sources)) {now : Timestamp}
    (hvalid : now.isValid = true) (hera : now.hasEra = true) (label : Option String)
    {kept : List Chunk} (hkept : kept.Sublist (chunker.chunkFiles sources))
    {tree : Entry} {path : Path}
    (hread : tree.read path = .ok (Document.ofChunks now label kept).text.toUTF8)
    (clock : Timestamp) :
    SourceChunks.loadDocument clock tree path = .ok (Document.ofChunks now label kept) := by
  have hproper := Document.ofChunks_proper hvalid hera label kept
  have hcount : Json.Short kept.length :=
    lt_of_le_of_lt (by simpa using hkept.length_le) h.count
  have hparse := Document.parse_text hproper (Document.numbers_ofChunks now label hcount
    fun chunk hchunk => h.numbers (hkept.subset hchunk)) clock
  exact (Document.recoveredFrom_print .indented (Document.encode_regular hproper) hparse).2
    tree path hread

section

variable {w : Workflow} {now : Timestamp} {tree made : Entry} {seen : Seen} {dedupe : Bool}
  {directory : Path} {paths : List Path}

/-- What a run gives that saves its document at a path, if at all. -/
def resultOf (w : Workflow) (tree : Entry) (seen : Seen) (dedupe : Bool) (paths : List Path)
    (output : Option Path) : RunResult :=
  let sources := w.selection.sources tree paths
  let sifted := Workflow.siftIf dedupe seen (w.chunker.chunkFiles sources)
  ⟨sources.map (·.path), sifted.kept, sifted.dropped, output⟩

/-- The document that a run saves. -/
def savedDocument (w : Workflow) (now : Timestamp) (tree : Entry) (seen : Seen) (dedupe : Bool)
    (paths : List Path) : Document :=
  .ofChunks now (some (sourcesText paths)) (resultOf w tree seen dedupe paths none).chunks

/-- A run that is not to save anything. -/
theorem run_none (w : Workflow) (now : Timestamp) (seen : Seen) (dedupe : Bool)
    (hpaths : ∀ path ∈ paths, (tree.at? path).isSome = true) :
    (w.run now tree seen ⟨dedupe, none⟩ paths).outcome =
        .ok (resultOf w tree seen dedupe paths none) ∧
      (w.run now tree seen ⟨dedupe, none⟩ paths).tree = tree := by
  rw [Workflow.run, w.selection.load_eq_ok hpaths]
  exact ⟨rfl, rfl⟩

/-- A run whose document is written. -/
theorem run_saving (hpaths : ∀ path ∈ paths, (tree.at? path).isSome = true) {tree' : Entry}
    (hwrite : writeDocument tree (documentPath now directory (sourcesText paths))
      (savedDocument w now tree seen dedupe paths) = .ok tree') :
    (w.run now tree seen ⟨dedupe, some directory⟩ paths).outcome =
        .ok (resultOf w tree seen dedupe paths
          (some (documentPath now directory (sourcesText paths)))) ∧
      (w.run now tree seen ⟨dedupe, some directory⟩ paths).tree = tree' := by
  unfold savedDocument resultOf at hwrite
  rw [Workflow.run, w.selection.load_eq_ok hpaths]
  simp only [hwrite, and_true]
  rfl

/-- A run whose document cannot be written. -/
theorem run_unsaved (hpaths : ∀ path ∈ paths, (tree.at? path).isSome = true)
    {failure : AccessFailure}
    (hwrite : writeDocument tree (documentPath now directory (sourcesText paths))
      (savedDocument w now tree seen dedupe paths) = .error failure) :
    (w.run now tree seen ⟨dedupe, some directory⟩ paths).outcome = .error (.unsaved failure) := by
  unfold savedDocument resultOf at hwrite
  rw [Workflow.run, w.selection.load_eq_ok hpaths]
  simp only [hwrite]

/-- The name of the file of a document is no double dot. -/
theorem documentFileName_ne (label : String) (now : Timestamp) :
    documentFileName label now ≠ ".." := by
  intro h
  have hlength := congrArg String.length h
  rw [documentFileName, String.length_append, String.length_append, String.length_append,
    String.length_append] at hlength
  have hprefix : "chunks_".length = 7 := by decide
  have hdots : "..".length = 2 := by decide
  omega

/-- A document can be written in a directory if there is room for its file. -/
theorem exists_writeDocument_iff {name : String} (hinside : directory.leadsOutside = false)
    (hname : name ≠ "..") (hmade : tree.makeDirectories directory = .ok made) (d : Document) :
    (∃ tree', writeDocument tree (directory.child name) d = .ok tree') ↔
      HasRoomFor made (directory.child name) := by
  have hwrite : ∀ tree', writeDocument tree (directory.child name) d = .ok tree' ↔
      made.write (directory.child name) d.text.toUTF8 = .ok tree' := by
    intro tree'
    rw [writeDocument, Entry.parent_child, hmade]
    rfl
  have hlast : (directory.child name).name = name := by
    rw [Path.name, Path.child, List.getLast?_concat]
    rfl
  simp only [hwrite]
  rw [Entry.exists_write_child_iff _ hinside hname
    (Entry.hasDirectory_of_makeDirectories hinside hmade)]
  constructor
  · rintro ⟨hfollowed, hshort, hfree⟩
    exact ⟨hfollowed, by rwa [hlast], hfree⟩
  · rintro ⟨hfollowed, hshort, hfree⟩
    exact ⟨hfollowed, by rwa [hlast] at hshort, hfree⟩

/-- Nothing is missing among paths that are there. -/
theorem filter_missing (hpaths : ∀ path ∈ paths, (tree.at? path).isSome = true) :
    (paths.zip (paths.map tree.at?)).filter (fun place => place.2.isNone) = [] := by
  rw [List.filter_eq_nil_iff]
  rintro ⟨path, entry⟩ hmem
  rw [← List.map_id paths, List.map_map, List.zip_map', List.mem_map] at hmem
  obtain ⟨path', hpath', heq⟩ := hmem
  obtain ⟨rfl, rfl⟩ := Prod.mk.inj heq
  have hthere := hpaths path' hpath'
  simpa [Option.isSome_iff_ne_none] using hthere

/-- The chunk command on paths that are there prints the document that a run would save. -/
theorem chunk_toOutput (settings : Settings) (now : Timestamp) {options : ChunkOptions}
    (hpaths : ∀ path ∈ options.paths, (tree.at? path).isSome = true)
    (houtput : options.toOutput = true) (hlog : options.logFile = none) :
    Report.chunk settings now tree options =
      { exitCode := 0
        output := [.line (savedDocument ⟨settings.selection, options.chunker⟩ now tree ∅
          options.dedupe options.paths).text]
        tree := tree } := by
  obtain ⟨houtcome, htree⟩ :=
    run_none ⟨settings.selection, options.chunker⟩ now ∅ options.dedupe hpaths
  rw [Report.chunk, mapM_eq_ok (g := tree.at?) fun path hpath =>
    Selection.probe_of_isSome (hpaths path hpath)]
  simp only [filter_missing hpaths, hlog, Report.chunkExisting, houtput, if_true, houtcome, htree,
    Report.ofRun]
  rfl

/-- The text that the chunk command prints for the paths and options of a run. -/
def IsPrinted (w : Workflow) (now : Timestamp) (tree : Entry) (dedupe : Bool) (paths : List Path)
    (text : String) : Prop :=
  ∀ settings options, settings.selection = w.selection → options.chunker = w.chunker →
    options.dedupe = dedupe → options.paths = paths → options.toOutput = true →
    options.logFile = none →
    Report.chunk settings now tree options =
      { exitCode := 0, output := [.line text], tree := tree }

/-- What a run gives that loads some source files and saves its document at a path: the names
of the files, and what is kept and dropped of the chunks that any number of workers makes of
them. -/
structure IsResult (w : Workflow) (seen : Seen) (dedupe : Bool) (sources : List SourceFile)
    (path : Path) (result : RunResult) : Prop where
  files : result.files = sources.map (·.path)
  output : result.output = some path
  divided : ∀ reported chunks, w.chunker.Gives sources reported chunks →
    IsDivided dedupe seen chunks result.chunks result.duplicates

/-- A document stands in a file of a tree, and is read from there if its numbers can be. -/
structure IsSaved (document : Document) (readable : Prop) (path : Path) (tree : Entry) : Prop where
  text : tree.read path = .ok document.text.toUTF8
  loaded : readable → ∀ clock, SourceChunks.loadDocument clock tree path = .ok document

theorem isResult_resultOf (w : Workflow) (tree : Entry) (seen : Seen) (dedupe : Bool)
    (paths : List Path) (path : Path) :
    IsResult w seen dedupe (w.selection.sources tree paths) path
      (resultOf w tree seen dedupe paths (some path)) where
  files := rfl
  output := rfl
  divided := by
    intro reported chunks hgives
    rw [hgives.eq.1]
    exact isDivided_siftIf dedupe seen _

theorem isPrinted_savedDocument (w : Workflow) (now : Timestamp) (dedupe : Bool)
    (hpaths : ∀ path ∈ paths, (tree.at? path).isSome = true) :
    IsPrinted w now tree dedupe paths (savedDocument w now tree ∅ dedupe paths).text := by
  rintro settings options hselection hchunker rfl rfl houtput hlog
  rw [chunk_toOutput settings now hpaths houtput hlog, hselection, hchunker]

theorem isSaved_of_write (hvalid : now.isValid = true) (hera : now.hasEra = true)
    (hinside : directory.leadsOutside = false) {name : String} (hname : name ≠ "..")
    {tree' : Entry} (hwrite : writeDocument tree (directory.child name)
      (savedDocument w now tree seen dedupe paths) = .ok tree') :
    IsSaved (savedDocument w now tree seen dedupe paths)
      (IsReadable (w.selection.sources tree paths)
        (w.chunker.chunkFiles (w.selection.sources tree paths)))
      (directory.child name) tree' := by
  have hread := read_writeDocument (Entry.child_inside hname hinside) hwrite
  exact ⟨hread, fun hreadable clock => hreadable.loadDocument hvalid hera _
    (isDivided_siftIf dedupe seen _).kept_sublist hread clock⟩

/-- A run whose document has no room for its file fails. -/
theorem exists_unsaved (hpaths : ∀ path ∈ paths, (tree.at? path).isSome = true)
    (hinside : directory.leadsOutside = false) (hmade : tree.makeDirectories directory = .ok made)
    (hroom : ¬ HasRoomFor made (documentPath now directory (sourcesText paths))) :
    ∃ failure,
      (w.run now tree seen ⟨dedupe, some directory⟩ paths).outcome = .error (.unsaved failure) := by
  cases hwrite : writeDocument tree (documentPath now directory (sourcesText paths))
    (savedDocument w now tree seen dedupe paths) with
  | ok tree' =>
      have hname := documentFileName_ne (sourcesText paths) now
      exact absurd ((exists_writeDocument_iff hinside hname hmade _).mp ⟨tree', hwrite⟩) hroom
  | error failure => exact ⟨failure, run_unsaved hpaths hwrite⟩

/-- A run on paths that are there, which saves its document in a directory that can be made,
loads the source files of the paths and divides the chunks that any number of workers makes of
them.  If there is room for the file of the document, this is what the run gives, and the
document stands in the tree behind it: it tells the chunks that were kept and how many there
are of each kind.  If there is not, the run fails.  The text of the document is what the chunk
command prints for the same paths at the same time in either case. -/
theorem run_saved (w : Workflow) (hvalid : now.isValid = true) (hera : now.hasEra = true)
    (seen : Seen) (dedupe : Bool) (hpaths : ∀ path ∈ paths, (tree.at? path).isSome = true)
    (hinside : directory.leadsOutside = false) (hmade : tree.makeDirectories directory = .ok made) :
    ∃ sources result path document run,
      (w.selection.load tree paths = .ok sources ∧
        path = documentPath now directory (sourcesText paths) ∧
        document = Document.ofChunks now (some (sourcesText paths)) result.chunks ∧
        run = w.run now tree seen ⟨dedupe, some directory⟩ paths) ∧
      IsResult w seen dedupe sources path result ∧ document.IsAbout result.chunks ∧
      (HasRoomFor made path → run.outcome = .ok result ∧
        IsSaved document (IsReadable sources (w.chunker.chunkFiles sources)) path run.tree) ∧
      (¬ HasRoomFor made path → ∃ failure, run.outcome = .error (.unsaved failure)) ∧
      (seen = ∅ → IsPrinted w now tree dedupe paths document.text) := by
  have hname := documentFileName_ne (sourcesText paths) now
  refine ⟨_, resultOf w tree seen dedupe paths (some _), _,
    savedDocument w now tree seen dedupe paths, _, ⟨w.selection.load_eq_ok hpaths, rfl, rfl, rfl⟩,
    isResult_resultOf w tree seen dedupe paths _, Document.ofChunks_isAbout _ _ _, fun hroom => ?_,
    exists_unsaved hpaths hinside hmade, fun hseen => ?_⟩
  · obtain ⟨tree', hwrite⟩ := (exists_writeDocument_iff hinside hname hmade _).mpr hroom
    obtain ⟨houtcome, htree⟩ := run_saving hpaths hwrite
    rw [htree]
    exact ⟨houtcome, isSaved_of_write hvalid hera hinside hname hwrite⟩
  · rw [hseen]
    exact isPrinted_savedDocument w now dedupe hpaths

end

/-! ## A file and its document -/

/-- A directory with one source file. -/
def oneSource : Entry :=
  .directory [("m.bal", .file "import a;".toUTF8)]

theorem at_oneSource : (oneSource.at? ⟨"", ["m.bal"]⟩).isSome = true := by
  have htext : Entry.textFault? (Path.text ⟨"", ["m.bal"]⟩) = none :=
    Entry.textFault_eq_none (by decide) (by decide)
  rw [Entry.at?, Entry.locate_inside htext (by decide)]
  rfl

theorem hasRoom_oneSource :
    HasRoomFor oneSource (documentPath newYear ⟨"", []⟩ (sourcesText [⟨"", ["m.bal"]⟩])) := by
  have hpath : documentPath newYear ⟨"", []⟩ (sourcesText [⟨"", ["m.bal"]⟩]) =
      ⟨"", ["chunks_m_bal_2024-01-01T00-00-00-000000Z.json"]⟩ := by
    decide +kernel
  rw [hpath]
  have htext :
      Entry.textFault? (Path.text ⟨"", ["chunks_m_bal_2024-01-01T00-00-00-000000Z.json"]⟩) = none :=
    Entry.textFault_eq_none (by decide +kernel) (by decide +kernel)
  refine ⟨htext, by decide +kernel, ?_⟩
  rw [Entry.hasDirectory, Entry.at?, Entry.locate_inside htext (by decide)]
  rfl

/-- A run on one file, whose document is found in the working directory. -/
theorem run_saved_oneSource :
    ∃ result path run,
      run = Workflow.run ⟨Settings.standard.selection, {}⟩ newYear oneSource ∅
        ⟨true, some ⟨"", []⟩⟩ [⟨"", ["m.bal"]⟩] ∧
      run.outcome = .ok result ∧ run.tree.read path =
        .ok (Document.ofChunks newYear (some "m.bal") result.chunks).text.toUTF8 := by
  have hpaths : ∀ path ∈ [⟨"", ["m.bal"]⟩], (oneSource.at? path).isSome = true := by
    simpa using at_oneSource
  obtain ⟨sources, result, path, document, run, ⟨-, rfl, rfl, hrun⟩, -, -, hsaved, -⟩ :=
    run_saved ⟨Settings.standard.selection, {}⟩ (show newYear.isValid = true by decide) (by decide)
      ∅ true hpaths (by decide) (Entry.makeDirectories_here _)
  obtain ⟨houtcome, hread⟩ := hsaved hasRoom_oneSource
  exact ⟨result, _, run, hrun, houtcome, hread.text⟩

/-! ## Names that are too long -/

theorem Path.splitFrom_of_notMem {s : List Char} (hs : '/' ∉ s) (name : List Char) :
    splitFrom name s = [name.reverse ++ s] := by
  induction s generalizing name with
  | nil => rw [splitFrom, List.append_nil]
  | cons c s ih =>
      obtain ⟨hc, hs⟩ := not_or.mp (List.mem_cons.not.mp hs)
      rw [splitFrom, if_neg (Ne.symm hc), ih hs]
      simp

/-- A text without slashes is a name. -/
theorem Path.name_ofText {s : String} (hs : '/' ∉ s.toList) (hne : s ≠ "") (hdot : s ≠ ".") :
    (ofText s).name = s := by
  simp [ofText, name, splitFrom_of_notMem hs, hne, hdot]

theorem length_le_utf8ByteSize (s : List Char) : s.length ≤ (String.ofList s).utf8ByteSize := by
  rw [String.utf8ByteSize_ofList]
  induction s with
  | nil => exact Nat.zero_le _
  | cons c s ih =>
      have hpos := Char.utf8Size_pos c
      rw [List.length_cons, String.utf8Len_cons]
      omega

/-- A long last name leaves no room for what else is in the name of the file of a document. -/
theorem isTooLong_documentFileName {sources : String}
    (h : 242 < (Path.ofText sources).name.toList.length) (now : Timestamp) :
    Entry.isTooLong (documentFileName sources now) = true := by
  have hne : (Path.ofText sources).name.toList.isEmpty = false := by
    rw [List.isEmpty_eq_false_iff]
    exact List.ne_nil_of_length_pos (by omega)
  have hlabel : 242 < (sourceLabel sources).utf8ByteSize := by
    rw [sourceLabel]
    simp only [hne, Bool.false_eq_true, if_false]
    refine lt_of_lt_of_le ?_ (length_le_utf8ByteSize _)
    rwa [List.length_map]
  have hprefix : "chunks_".utf8ByteSize = 7 := by decide
  have hline : "_".utf8ByteSize = 1 := by decide
  have hsuffix : ".json".utf8ByteSize = 5 := by decide
  rw [Entry.isTooLong, documentFileName, Entry.nameLimit, decide_eq_true_eq]
  simp only [String.utf8ByteSize_append]
  omega

/-- A name of a directory, which has the same letter a number of times. -/
def longName : String :=
  String.ofList (List.replicate 250 'a')

theorem utf8ByteSize_longName : longName.utf8ByteSize = 250 :=
  (String.utf8ByteSize_ofList _).trans (by decide +kernel)

theorem toList_longName : longName.toList = List.replicate 250 'a' :=
  String.toList_ofList

/-- A directory with a long name and a source file in it. -/
def longNamed : Entry :=
  .directory [(longName, .directory [("m.bal", .file "import a;".toUTF8)])]

/-- There may be no room for the document of a directory that can be chunked, since its name is
part of the name of the file. -/
theorem longNamed_unsaved :
    (longNamed.at? ⟨"", [longName]⟩).isSome = true ∧
      longNamed.makeDirectories ⟨"", []⟩ = .ok longNamed ∧
      ∃ failure, (Workflow.run ⟨Settings.standard.selection, {}⟩ newYear longNamed ∅
        ⟨true, some ⟨"", []⟩⟩ [⟨"", [longName]⟩]).outcome = .error (.unsaved failure) := by
  have hne : ∀ s : String, s.utf8ByteSize ≠ 250 → longName ≠ s := fun s hs heq =>
    hs (heq ▸ utf8ByteSize_longName)
  have hpath : Path.text ⟨"", [longName]⟩ = longName := by simp [Path.text]
  have htext : Entry.textFault? (Path.text ⟨"", [longName]⟩) = none := by
    rw [hpath]
    refine Entry.textFault_eq_none ?_ (by rw [utf8ByteSize_longName]; decide)
    rw [toList_longName, List.mem_replicate]
    decide
  have hthere : (longNamed.at? ⟨"", [longName]⟩).isSome = true := by
    have hshort : Entry.isTooLong longName = false := by
      rw [Entry.isTooLong, utf8ByteSize_longName]
      decide
    have hlookup : Entry.lookup longName longNamed.entries =
        some (.directory [("m.bal", .file "import a;".toUTF8)]) := by
      rw [longNamed, Entry.entries, Entry.lookup_cons, if_pos rfl]
    have hinside : Path.leadsOutside ⟨"", [longName]⟩ = false := by
      simp [Path.leadsOutside, Path.isAbsolute, Path.resolved, hne ".." (by decide)]
    rw [Entry.at?, Entry.locate_inside htext hinside,
      Entry.locateFrom_down [] rfl (hne ".." (by decide)) hshort hlookup]
    rfl
  have hname : (Path.ofText (sourcesText [⟨"", [longName]⟩])).name = longName := by
    have hsources : sourcesText [⟨"", [longName]⟩] = longName := by simp [sourcesText, hpath]
    rw [hsources]
    refine Path.name_ofText ?_ (hne "" (by decide)) (hne "." (by decide))
    rw [toList_longName, List.mem_replicate]
    decide
  have hroom : ¬ HasRoomFor longNamed
      (documentPath newYear ⟨"", []⟩ (sourcesText [⟨"", [longName]⟩])) := by
    intro h
    have hlong : Entry.isTooLong (documentFileName (sourcesText [⟨"", [longName]⟩]) newYear) =
        true :=
      isTooLong_documentFileName (by rw [hname, toList_longName, List.length_replicate]; decide) _
    exact absurd (h.short.symm.trans hlong) (by decide)
  have hpaths : ∀ path ∈ [⟨"", [longName]⟩], (longNamed.at? path).isSome = true := by
    simpa using hthere
  exact ⟨hthere, Entry.makeDirectories_here _,
    exists_unsaved hpaths (by decide) (Entry.makeDirectories_here _) hroom⟩

end SourceChunks
