import SourceChunks.Source.Bisection
import SourceChunks.Span

/-!
# The outermost blocks of a region

A block map lists the blocks of a region that lie in no other block of it.  What
lies strictly inside a listed block is nested; everything else is at the top
level of the region.  A closing brace without an opening one is passed over, and
a block that is never closed extends to the end of the region.
-/

namespace SourceChunks

/-- The outermost blocks in the rest of a region that ends at `stop`, where
`depth` blocks are open and the outermost of them was opened at `opened`. -/
def outermostFrom (stop : Nat) : (opened depth offset : Nat) → List Char → List Span
  | opened, depth, _, [] => if depth = 0 then [] else [⟨opened, stop⟩]
  | opened, depth, offset, c :: rest =>
      if c = '{' then
        outermostFrom stop (if depth = 0 then offset else opened) (depth + 1) (offset + 1) rest
      else if c = '}' then
        if depth = 1 then ⟨opened, offset + 1⟩ :: outermostFrom stop opened 0 (offset + 1) rest
        else outermostFrom stop opened (depth - 1) (offset + 1) rest
      else outermostFrom stop opened depth (offset + 1) rest

/-- The outermost blocks of a region, in increasing order. -/
structure BlockMap where
  /-- The blocks, from the opening brace to past the closing one. -/
  blocks : List Span
  deriving Repr, DecidableEq

namespace BlockMap

/-- The block map of a region of a mask. -/
def ofRegion (mask : List Char) (region : Span) : BlockMap :=
  ⟨outermostFrom region.stop region.start 0 region.start (region.slice mask)⟩

/-- The block map of a whole mask. -/
def ofMask (mask : List Char) : BlockMap :=
  ofRegion mask ⟨0, mask.length⟩

/-- The outermost block that an offset is strictly inside of.  It can only be the last one
that does not begin behind the offset. -/
def enclosing? (map : BlockMap) (offset : Nat) : Option Span :=
  match bisect (·.start ≤ offset) map.blocks with
  | 0 => none
  | before + 1 =>
      map.blocks[before]?.filter fun block => block.start < offset && offset < block.stop

/-- Whether an offset is in no block. -/
def isTopLevel (map : BlockMap) (offset : Nat) : Bool :=
  (map.enclosing? offset).isNone

end BlockMap

end SourceChunks
