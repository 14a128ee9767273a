import SourceChunks.Text.Ranges
import SourceChunks.Text.WordTable

/-!
# Word characters

A word character is a letter, a digit or another numeric of any script, or the
underscore.
-/

namespace SourceChunks.Text

/-- Letters, digits and numerics of all scripts. -/
def isAlphanumeric (c : Char) : Bool :=
  if c.toNat < 128 then c.isAlphanum else inRanges c.toNat alphanumericRanges

/-- Alphanumeric characters and the underscore. -/
def isWord (c : Char) : Bool :=
  c == '_' || isAlphanumeric c

end SourceChunks.Text
