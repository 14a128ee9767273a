import SourceChunks.Source.Bisection

/-!
# Lines and columns

Lines and columns count from one.  Only a line feed ends a line, and it is the
last column of the line it ends; a carriage return is a column like any other.

A point can be computed from the text each time, or from a table of the line
feeds that is made once and then bisected.
-/

namespace SourceChunks

/-- A line and a column. -/
structure Point where
  /-- The line, from one. -/
  line : Nat
  /-- The column, from one. -/
  column : Nat
  deriving Repr, DecidableEq

/-- An offset lies before the beginning or behind the end of a text. -/
structure OutOfBounds where
  /-- The offset. -/
  offset : Int
  /-- The length of the text. -/
  length : Nat
  deriving Repr, DecidableEq

/-- The wording of the failure. -/
def OutOfBounds.message (e : OutOfBounds) : String :=
  s!"Offset {e.offset} out of bounds (0-{e.length})"

/-- An offset that lies in a text of the given length or at its end. -/
def checkOffset (length : Nat) (offset : Int) : Except OutOfBounds Nat :=
  if offset < 0 || offset > length then .error ⟨offset, length⟩ else .ok offset.toNat

/-- The point of an offset, from the text before it. -/
def Point.behind (before : List Char) : Point :=
  ⟨before.count '\n' + 1, (before.reverse.takeWhile (· != '\n')).length + 1⟩

/-- The point of an offset in a text. -/
def pointOf (text : List Char) (offset : Int) : Except OutOfBounds Point :=
  (checkOffset text.length offset).map fun n => Point.behind (text.take n)

/-- The offsets of the line feeds in a text that begins at an offset. -/
def newlinesFrom : (offset : Nat) → List Char → List Nat
  | _, [] => []
  | offset, c :: rest =>
      if c = '\n' then offset :: newlinesFrom (offset + 1) rest else newlinesFrom (offset + 1) rest

/-- What is needed of a text to find points in it. -/
structure LineIndex where
  /-- The length of the text. -/
  length : Nat
  /-- The offsets of its line feeds, in increasing order. -/
  newlines : List Nat
  deriving Repr, DecidableEq

namespace LineIndex

/-- The table of a text. -/
def ofText (text : List Char) : LineIndex :=
  ⟨text.length, newlinesFrom 0 text⟩

/-- The point of an offset that lies in the text or at its end.  If any line feeds stand
before it, its column is counted from the last of them. -/
def pointAt (index : LineIndex) (offset : Nat) : Point :=
  match bisect (· < offset) index.newlines with
  | 0 => ⟨1, offset + 1⟩
  | before + 1 => ⟨before + 2, offset - index.newlines.getD before 0⟩

/-- The point of an offset. -/
def point (index : LineIndex) (offset : Int) : Except OutOfBounds Point :=
  (checkOffset index.length offset).map index.pointAt

end LineIndex

end SourceChunks
