import SourceChunks.Chunk.Basic
import SourceChunks.Chunk.Identity

/-!
# Bounding the size of chunks

A chunk whose text is longer than a limit is cut into numbered parts.  All parts
but the last have exactly the length of the limit, wherever that cuts the text.
-/

namespace SourceChunks

/-- The greatest length that the text of a chunk may have. -/
structure Limit where
  /-- The number of characters. -/
  size : Nat
  size_pos : 0 < size
  deriving Repr, DecidableEq

/-- A number that has to be positive is not. -/
structure NotPositive where
  /-- What the number is for. -/
  what : String
  deriving Repr, DecidableEq

/-- The wording of the failure. -/
def NotPositive.message (e : NotPositive) : String :=
  e.what ++ " must be positive"

namespace Limit

/-- The limit of two thousand characters that holds unless another one is given. -/
def standard : Limit := ⟨2000, by decide⟩

/-- A number as a limit, where `what` tells what the number is for. -/
def ofInt (what : String) (n : Int) : Except NotPositive Limit :=
  if h : 0 < n.toNat then .ok ⟨n.toNat, h⟩ else .error ⟨what⟩

end Limit

/-- The stretches of a text that have a given length, and a shorter last one if the
text does not come out even.  The text has at most `fuel` characters. -/
def stretches (size : Nat) : (fuel : Nat) → List Char → List (List Char)
  | 0, _ => []
  | fuel + 1, s => if s.isEmpty then [] else s.take size :: stretches size fuel (s.drop size)

/-- The parts of a chunk that is cut into the given texts. -/
def partsOf (chunk : Chunk) (texts : List String) : List Chunk :=
  texts.zipIdx.map fun (text, i) =>
    { chunk with
      content := text
      contentHash := contentHash text
      part := some (i + 1 : Nat)
      partCount := some (texts.length : Nat) }

/-- A chunk alone if its text is within a limit, and its parts otherwise. -/
def bound (limit : Limit) (chunk : Chunk) : List Chunk :=
  let text := chunk.content.toList
  if text.length ≤ limit.size then [chunk]
  else partsOf chunk ((stretches limit.size text.length text).map String.ofList)

end SourceChunks
