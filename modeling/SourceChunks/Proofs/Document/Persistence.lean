import Mathlib
import SourceChunks.Document.Store
import SourceChunks.Proofs.Document.RoundTrip
import SourceChunks.Proofs.Files.WriteRead

/-!
# Chunks that are kept

Chunks come back from their document field for field and in order, whether its text is
read directly or from a file.  A bare list of them does as well, in either spelling of
the fields.  The one thing that keeps a document from being read is a whole number with
more digits than the reader takes.

* `Document.IsAbout`: a document holds some chunks and counts them right.
* `Document.RecoveredFrom`: a text is read as a document, also from a file.
* `chunks_recovered`: documents and bare lists of chunks are recovered from their texts.
* `import_long_line_refused`: a document with a number that is too long is not.
-/

namespace SourceChunks

/-- What a document says is what there is to say about some chunks: the chunks
themselves, how many there are, and how many of each kind. -/
structure Document.IsAbout (d : Document) (chunks : List Chunk) : Prop where
  chunks_eq : d.chunks = chunks
  total_eq : d.summary.totalChunks = chunks.length
  count_eq : ∀ k : Kind, d.summary.chunkTypeCounts.lookup k.name =
    if chunks.countP (·.kind = k) = 0 then none else some (chunks.countP (·.kind = k) : Int)

/-- A text is read as a document, and so is every file that holds the text. -/
def Document.RecoveredFrom (d : Document) (now : Timestamp) (text : String) : Prop :=
  Document.parse now text = .ok d ∧
    ∀ (tree : Entry) (path : Path), tree.read path = .ok text.toUTF8 →
      loadDocument now tree path = .ok d

theorem Document.ofChunks_isAbout (now : Timestamp) (directory : Option String)
    (chunks : List Chunk) : (Document.ofChunks now directory chunks).IsAbout chunks where
  chunks_eq := rfl
  total_eq := rfl
  count_eq := by
    intro k
    show (castCounts (kindCounts chunks)).lookup k.name = _
    rw [lookup_castCounts, lookup_kindCounts]
    split_ifs
    · rfl
    · rfl

/-- The numbers in a summary are at most the number of chunks. -/
theorem Document.numbers_ofChunks (now : Timestamp) (directory : Option String)
    {chunks : List Chunk} (hlength : Json.Short chunks.length)
    (hshort : ∀ c ∈ chunks, ∀ n ∈ c.numbers, Json.Short n) :
    ∀ n ∈ (Document.ofChunks now directory chunks).numbers, Json.Short n := by
  intro n hn
  rw [Document.numbers, List.mem_append, List.mem_cons] at hn
  rcases hn with (rfl | hcount) | hchunk
  · exact hlength
  · obtain ⟨⟨name, count⟩, hmem, rfl⟩ := List.mem_map.mp hcount
    obtain ⟨⟨name', n⟩, hmem', hsame⟩ := List.mem_map.mp hmem
    obtain ⟨rfl, rfl⟩ := Prod.mk.inj hsame
    have hle : n ≤ chunks.length := count_le_length hmem'
    rw [Json.Short] at hlength ⊢
    exact lt_of_le_of_lt (by simpa using hle) hlength
  · obtain ⟨c, hc, hnumber⟩ := List.mem_flatMap.mp hchunk
    exact hshort c hc n hnumber

/-! ## Files -/

/-- A text without carriage returns comes back from a file as it is. -/
theorem unifyLineEnds_eq_self {s : List Char} (hs : '\r' ∉ s) : Text.unifyLineEnds s = s := by
  induction s with
  | nil => rfl
  | cons c s ih =>
      obtain ⟨hc, hrest⟩ := not_or.mp (List.mem_cons.not.mp hs)
      rw [Text.unifyLineEnds.eq_3 _ _ (by rintro rest rfl; exact absurd rfl hc), ih hrest,
        if_neg (Ne.symm hc)]

theorem loadDocument_of_read {now : Timestamp} {tree : Entry} {path : Path} {text : String}
    (hcr : '\r' ∉ text.toList) (h : tree.read path = .ok text.toUTF8) :
    loadDocument now tree path = (Document.parse now text).mapError .noDocument := by
  rw [loadDocument, h]
  simp only [Encoding.readText_utf8_toUTF8, unifyLineEnds_eq_self hcr, String.ofList_toList]

theorem Json.cr_notMem_print (layout : Layout) {value : Json} (h : Regular depthLimit value) :
    '\r' ∉ (print layout value).toList := by
  rw [print, String.toList_ofList]
  exact cr_notMem_write layout 0 depthLimit value [] h (by simp)

/-- A printed value that is read as a document is recovered from its text. -/
theorem Document.recoveredFrom_print {d : Document} {now : Timestamp} (layout : Json.Layout)
    {value : Json} (hvalue : Json.Regular Json.depthLimit value)
    (h : Document.parse now (value.print layout) = .ok d) :
    d.RecoveredFrom now (value.print layout) := by
  refine ⟨h, fun tree path hread => ?_⟩
  rw [loadDocument_of_read (Json.cr_notMem_print layout hvalue) hread, h]
  rfl

theorem read_writeDocument {tree tree' : Entry} {path : Path} {d : Document}
    (hinside : path.leadsOutside = false) (h : writeDocument tree path d = .ok tree') :
    tree'.read path = .ok d.text.toUTF8 := by
  rw [writeDocument] at h
  cases hmade : tree.makeDirectories path.parent with
  | error failure => rw [hmade] at h; contradiction
  | ok made =>
      rw [hmade] at h
      exact Entry.read_write hinside h

/-! ## Recovery -/

/-- Chunks without numbers that are too long are recovered: from the text of a document
about them, from a file of their working directory to which the document was written, and
from any text that holds a bare list of them in one of the two spellings. -/
theorem chunks_recovered {clock : Timestamp} (hvalid : clock.isValid = true)
    (hera : clock.hasEra = true) (now : Timestamp) (directory : Option String)
    {chunks : List Chunk} (hlength : Json.Short chunks.length)
    (hshort : ∀ c ∈ chunks, ∀ n ∈ c.numbers, Json.Short n) :
    (∃ d : Document, d.IsAbout chunks ∧ d.summary.sourceDirectory = directory ∧
        d.summary.generatedAt = clock ∧ d = Document.ofChunks clock directory chunks ∧
        d.RecoveredFrom now d.text ∧
        ∀ tree tree' path, path.leadsOutside = false → writeDocument tree path d = .ok tree' →
          loadDocument now tree' path = .ok d) ∧
      ∃ d : Document, d.IsAbout chunks ∧ d.summary.sourceDirectory = none ∧
        d.summary.generatedAt = now ∧
        ∀ spelling : Spelling,
          (∀ layout, d.RecoveredFrom now
            (Json.print layout (.arr (chunks.map (·.encode spelling))))) ∧
          ∀ text : String, Json.parse text.toList = .ok (.arr (chunks.map (·.encode spelling))) →
            Document.parse now text = .ok d := by
  have hnumbers := Document.numbers_ofChunks clock directory hlength hshort
  have hproper := Document.ofChunks_proper hvalid hera directory chunks
  have hparse := Document.parse_text hproper hnumbers now
  have hrecovered := Document.recoveredFrom_print .indented (Document.encode_regular hproper) hparse
  constructor
  · refine ⟨Document.ofChunks clock directory chunks, Document.ofChunks_isAbout _ _ _, rfl, rfl, rfl,
      hrecovered, fun tree tree' path hinside hwrite => ?_⟩
    exact hrecovered.2 tree' path (read_writeDocument hinside hwrite)
  · refine ⟨Document.ofChunks now none chunks, Document.ofChunks_isAbout _ _ _, rfl, rfl,
      fun spelling => ⟨fun layout => ?_, fun text htext => ?_⟩⟩
    · have hbare : ∀ n ∈ chunks.flatMap Chunk.numbers, Json.Short n := by
        intro n hn
        obtain ⟨c, hc, hnumber⟩ := List.mem_flatMap.mp hn
        exact hshort c hc n hnumber
      exact Document.recoveredFrom_print layout
        (Json.regular_chunks spelling chunks Json.depthLimit (by decide))
        (Document.parse_bareList now layout spelling hbare)
    · exact Document.parse_of_bareList now spelling htext

/-! ## Some chunks -/

/-- The chunk of an import clause that stands in a given line. -/
def Chunk.importAt (line : Int) : Chunk where
  kind := .importClause
  name := none
  content := "import a;"
  position := ⟨line, line, 1, 9⟩
  file := "main.bal"
  id := "i"
  contentHash := "h"

/-- The beginning of the year 2024. -/
def newYear : Timestamp := ⟨2024, 1, 1, 0, 0, 0, 0, some 0⟩

theorem Json.short_of_lt {n : Int} (h : n.natAbs < 10) : Json.Short n :=
  lt_of_lt_of_le h (Nat.le_self_pow (by decide) 10)

/-- A document can be written in an empty directory. -/
theorem writeDocument_here (d : Document) :
    writeDocument (.directory []) ⟨"", ["c.json"]⟩ d =
      .ok (.directory [("c.json", .file d.text.toUTF8)]) := by
  have hdot : Entry.textFault? (Path.text ⟨"", []⟩) = none :=
    Entry.textFault_eq_none (by decide) (by decide)
  have hname : Entry.textFault? (Path.text ⟨"", ["c.json"]⟩) = none :=
    Entry.textFault_eq_none (by decide) (by decide)
  have hhere : (Entry.directory []).locate ⟨"", []⟩ = .ok ([], .directory []) := by
    rw [Entry.locate_inside hdot (by decide)]
    rfl
  have hplace : (Entry.directory []).place ⟨"", ["c.json"]⟩ = .ok (["c.json"], none) := by
    rw [Entry.place, hname]
    have hother : ("c.json" == "..") = false := by decide
    have hlong : Entry.isTooLong "c.json" = false := by decide
    simp only [Path.parent, List.getLast?_singleton, List.dropLast_singleton, hhere, hother, hlong]
    rfl
  rw [writeDocument, show Path.parent ⟨"", ["c.json"]⟩ = ⟨"", []⟩ from rfl,
    Entry.makeDirectories_here]
  show Entry.write _ _ _ = _
  rw [Entry.write, hplace]
  rfl

/-- Chunks of four kinds: one with nothing that may be left out, a part of a signature with
carriage returns, a body of a resource without parameters, and a service.  Their texts hold quotes,
backslashes, control characters and a character beyond the first plane. -/
def fourKinds : List Chunk :=
  [.importAt 1,
    { kind := .function
      name := some "f"
      content := "function f(string s = \"\\\",\r\n\tint b = 1"
      position := ⟨2, 5, 1, 1⟩
      file := "src/\u00e9" ++ String.singleton (Char.ofNat 0x1f600) ++ ".bal"
      id := "i"
      contentHash := "h"
      visibility := some "public"
      parameters := some ["string s = \"\\\"", "int b = 1"]
      returnType := some ""
      role := some .signature
      part := some 1
      partCount := some 2 },
    { kind := .resource
      name := some "get ."
      content := "return \u0001\u007f;"
      position := ⟨7, 7, 3, 9⟩
      file := "\r"
      id := "j"
      contentHash := ""
      parameters := some []
      returnType := some "error?"
      role := some .body
      httpMethod := some "get"
      resourcePath := some "."
      fullPath := some "/a\\b"
      servicePath := some "unnamed_service" },
    { kind := .service
      name := some "a"
      content := "service /a on new l(9)"
      position := ⟨6, 8, -1, 0⟩
      file := ""
      id := ""
      contentHash := "h"
      path := some "/a"
      listener := some "new l(9)" }]

/-- Such a recovery, of chunks of four kinds through a file and from a bare list in either
spelling. -/
theorem chunks_recovered_fourKinds :
    (∃ d tree', d.IsAbout fourKinds ∧ d.summary.sourceDirectory = some "src\\\r\n" ∧
        writeDocument (.directory []) ⟨"", ["c.json"]⟩ d = .ok tree' ∧
        loadDocument newYear tree' ⟨"", ["c.json"]⟩ = .ok d) ∧
      ∃ d : Document, d.IsAbout fourKinds ∧ ∀ spelling : Spelling,
        Document.parse newYear
          (Json.print .line (.arr (fourKinds.map (·.encode spelling)))) = .ok d := by
  have hlength : Json.Short fourKinds.length := Json.short_of_lt (by decide)
  have hsmall : ∀ c ∈ fourKinds, ∀ n ∈ c.numbers, n.natAbs < 10 := by decide
  obtain ⟨⟨d, habout, hdirectory, -, -, -, hfile⟩, e, habout', -, -, hbare⟩ :=
    chunks_recovered (show newYear.isValid = true by decide) (by decide) newYear
      (some "src\\\r\n") hlength fun c hc n hn => Json.short_of_lt (hsmall c hc n hn)
  exact ⟨⟨d, _, habout, hdirectory, writeDocument_here d,
    hfile _ _ _ (by decide) (writeDocument_here d)⟩, e, habout',
    fun spelling => ((hbare spelling).1 .line).1⟩

/-- A document about a declaration in a line whose number is too long is not read back. -/
theorem Chunk.importAt_refused {line : Int} (hlong : ¬ Json.Short line) :
    ∃ fault count, Document.parse newYear
      (Document.ofChunks newYear none [Chunk.importAt line]).text = .error (.malformed fault) ∧
        fault.cause = .tooManyDigits count := by
  have hmem : line ∈ (Document.ofChunks newYear none [Chunk.importAt line]).numbers :=
    List.mem_append_right _
      (List.mem_flatMap.mpr ⟨_, List.mem_singleton_self _, List.mem_cons_self⟩)
  exact Document.parse_text_long (Document.ofChunks_proper (by decide) (by decide) none _)
    ⟨line, hmem, hlong⟩ newYear

/-- The least number with too many digits. -/
def Json.leastLong : Int :=
  10 ^ Numeral.digitLimit

theorem import_long_line_refused :
    ∃ fault count, Document.parse newYear
      (Document.ofChunks newYear none [Chunk.importAt Json.leastLong]).text =
        .error (.malformed fault) ∧ fault.cause = .tooManyDigits count := by
  have hpow : ∀ limit : Nat, ¬ ((10 : Int) ^ limit).natAbs < 10 ^ limit := by
    intro limit
    rw [Int.natAbs_pow]
    exact lt_irrefl _
  exact Chunk.importAt_refused (hpow Numeral.digitLimit)

end SourceChunks
