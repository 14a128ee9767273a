import SourceChunks.Chunk.Stream
import SourceChunks.Text.CodePoint

/-!
# The chunks of texts with halves

Declarations are found in what a text shows.  The origin of a declaration and the texts
of its chunks are encoded before they are hashed, so a half in the name of the file, or
in a declaration, is where chunking fails.  A half elsewhere, such as in a comment
between two declarations, does no harm.

The texts to be hashed are cut out of the text, halves and all, in the same way as the
texts of chunks are cut out of what it shows.  Every other text that a chunk holds is
part of one that is hashed for it or for the service that it belongs to.
-/

namespace SourceChunks.RawText

/-! ## Parts of a text -/

/-- The part of a text that a span names. -/
def part (s : RawText) (span : Span) : RawText :=
  s.extract span.start span.stop

/-- A text without the white space at its two ends. -/
def trim (s : RawText) : RawText :=
  stripChars (fun p => Text.isBlank p.shown) s

/-- A part without the white space around it; none if nothing is left. -/
def trimmed? (s : RawText) (span : Span) : Option RawText :=
  let trimmed := trim (part s span)
  if trimmed.isEmpty then none else some trimmed

/-- The words of a text with one space between neighbours. -/
def collapse (s : RawText) : RawText :=
  List.intercalate (ofString " ") (Text.wordsBy CodePoint.shown s)

/-! ## Headers on one line -/

/-- The parameters of a list, each on one line; blank ones do not count. -/
def splitParameters (raw : RawText) : List RawText :=
  ((piecesBy CodePoint.shown raw).filter fun piece => !Text.allBlank (chars piece)).map collapse

/-- The words for a return type; none for an absent or empty one. -/
def returnsWords (returns : Option RawText) : List RawText :=
  match returns with
  | some type => if type.isEmpty then [] else [ofString "returns " ++ collapse type]
  | none => []

/-- A name and parameters behind a keyword. -/
def call (keyword : String) (name : RawText) (parameters : List RawText) : RawText :=
  ofString keyword ++ name ++ ofString "(" ++ List.intercalate (ofString ", ") parameters ++
    ofString ")"

/-- The header of a function on one line. -/
def functionSignature (isPublic : Bool) (qualifiers : List RawText) (name : RawText)
    (parameters : List RawText) (returns : Option RawText) : RawText :=
  List.intercalate (ofString " ") ((if isPublic then [ofString "public"] else []) ++ qualifiers ++
    [call "function " name parameters] ++ returnsWords returns)

/-- The header of a resource on one line. -/
def resourceSignature (qualifiers : List RawText) (method path : RawText)
    (parameters : List RawText) (returns : Option RawText) : RawText :=
  List.intercalate (ofString " ") (qualifiers ++
    [call "resource function " (method ++ ofString " " ++ path) parameters] ++ returnsWords returns)

/-! ## What is hashed for a declaration -/

/-- What a service is called, by the path or name that it was given. -/
def serviceName (path : Option RawText) : RawText :=
  let inner := stripChars (·.shown == '/') (stripChars (·.shown == '"') (path.getD []))
  if inner.isEmpty then ofString unnamedService else inner

/-- What a declaration is called; nothing for an import. -/
def name (s : RawText) : Shape Span → RawText
  | .importClause => []
  | .configurable _ _ name => part s name
  | .moduleVariable _ name => part s name
  | .typeDefinition _ name => part s name
  | .function _ name _ => part s name
  | .service header => serviceName (header.path.map (part s))
  | .resource _ method path _ => part s method ++ ofString " " ++ part s path
  | .classDefinition _ name => part s name
  | .constant _ _ name => part s name

/-- What identifies a declaration: its file, kind, name and first line. -/
def provenance (file : RawText) (kind : Kind) (name : RawText) (startLine : Int) : RawText :=
  file ++ ofString ("::" ++ kind.name ++ "::") ++ name ++ ofString ("::" ++ toString startLine)

/-- The texts of the chunks of a declaration. -/
def contents (s : RawText) (d : Declaration Span) : List RawText :=
  let body := trim ((d.body?.map (part s)).getD [])
  match d.shape with
  | .function isPublic name callable =>
      [functionSignature isPublic (callable.qualifiers.map (part s)) (part s name)
        (splitParameters (part s callable.parameters)) (callable.returns.bind (trimmed? s)), body]
  | .service header => [collapse (part s ⟨d.span.start, header.opening⟩)]
  | .resource _ method path callable =>
      [resourceSignature (callable.qualifiers.map (part s)) (part s method) (part s path)
        (splitParameters (part s callable.parameters)) (callable.returns.bind (trimmed? s)), body]
  | _ => [part s d.span]

/-- All texts that are hashed for a declaration that begins on a given line: what
identifies it, and the texts of its chunks. -/
def hashed (file s : RawText) (startLine : Int) (d : Declaration Span) : List RawText :=
  provenance file d.kind (name s d.shape) startLine :: contents s d

/-! ## Chunks -/

/-- The digest of a text that can be encoded. -/
def digest (s : RawText) : Except Unencodable String :=
  (encode s).map Sha256.hexDigest

/-- The chunks of a declaration, with the digests of what is hashed for it as their
identifiers and hashes. -/
def signed (file s : RawText) (startLine : Int) (d : Declaration Span) (chunks : List Chunk) :
    Except Unencodable (List Chunk) := do
  let id ← digest (provenance file d.kind (name s d.shape) startLine)
  let hashes ← (contents s d).mapM digest
  return List.zipWith (fun chunk hash => { chunk with id := id, contentHash := hash }) chunks hashes

/-- The chunks of a declaration that was found in what a text shows.  The parts of a chunk
whose text can be encoded can all be. -/
def boundedChunks (limit : Limit) (file s : RawText) (index : LineIndex) (d : Declaration Span) :
    Except Unencodable (List Chunk) := do
  let chunks ← signed file s (positionOf index d.span).startLine d
    (chunksOf (text file) (chars s) index (d.read (chars s)))
  return chunks.flatMap (bound limit)

/-- The chunks of a text. -/
def chunkText (limit : Limit) (file s : RawText) : Except Unencodable (List Chunk) := do
  let index := LineIndex.ofText (chars s)
  let found := declarations (Locate.all (mask (chars s)))
  let groups ← found.mapM (boundedChunks limit file s index)
  return groups.flatten

end SourceChunks.RawText
