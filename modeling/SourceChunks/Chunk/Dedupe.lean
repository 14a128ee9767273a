import Std.Data.HashSet
import SourceChunks.Chunk.Basic

/-!
# Dropping chunks with a known text

Of the chunks with one content hash, the first is kept and the others are dropped.
The hashes that were met are remembered, so several lists can be sifted one after
another.
-/

namespace SourceChunks

/-- The hashes that were met so far. -/
abbrev Seen := Std.HashSet String

/-- A list of chunks, divided into those with new hashes and the others. -/
structure Sifted where
  /-- The first chunk of every new hash, in order. -/
  kept : List Chunk
  /-- All other chunks, in order. -/
  dropped : List Chunk
  /-- The hashes that were met by the end. -/
  seen : Seen

/-- The chunks of a list divided by whether their hash was met before. -/
def sift (seen : Seen) : List Chunk → Sifted
  | [] => ⟨[], [], seen⟩
  | chunk :: rest =>
      if seen.contains chunk.contentHash then
        let sifted := sift seen rest
        { sifted with dropped := chunk :: sifted.dropped }
      else
        let sifted := sift (seen.insert chunk.contentHash) rest
        { sifted with kept := chunk :: sifted.kept }

/-- The chunks of one list without those that repeat a hash. -/
def deduplicate (chunks : List Chunk) : List Chunk :=
  (sift ∅ chunks).kept

end SourceChunks
