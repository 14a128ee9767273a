import SourceChunks.Digest.Sha256
import SourceChunks.Declaration.Kind

/-!
# Identifiers and hashes

A declaration is identified by where it comes from, and a text by its digest.
-/

namespace SourceChunks

/-- What identifies a declaration: its file, kind, name and first line. -/
def provenance (file : String) (kind : Kind) (name : Option String) (startLine : Int) : String :=
  file ++ "::" ++ kind.name ++ "::" ++ name.getD "" ++ "::" ++ toString startLine

/-- The identifier of a declaration. -/
def chunkId (file : String) (kind : Kind) (name : Option String) (startLine : Int) : String :=
  Sha256.hexDigest (provenance file kind name startLine)

/-- The hash of a text. -/
def contentHash (content : String) : String :=
  Sha256.hexDigest content

end SourceChunks
