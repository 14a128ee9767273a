/-!
# Line ends

A file may end its lines with a line feed, a carriage return or both.  A text
that was read from a file has line feeds only.  Where a text is cut into lines to be
shown, all characters that separate lines count.
-/

namespace SourceChunks.Text

/-- A text with every carriage return, and every pair of a carriage return and a
line feed, replaced by one line feed. -/
def unifyLineEnds : List Char → List Char
  | [] => []
  | '\r' :: '\n' :: rest => '\n' :: unifyLineEnds rest
  | c :: rest => (if c = '\r' then '\n' else c) :: unifyLineEnds rest

/-- Whether a character separates lines: the line feed and the three characters behind
it, the information separators of files, groups and records, the next-line character,
and the line and paragraph separators of Unicode. -/
def endsLine (c : Char) : Bool :=
  let n := c.toNat
  (0x0A ≤ n && n ≤ 0x0D) || (0x1C ≤ n && n ≤ 0x1E) || n = 0x85 || n = 0x2028 || n = 0x2029

/-- The lines of a text with unified line ends; `line` holds the characters of the
current one so far, the latest first.  A separator at the end begins no line. -/
def linesFrom (line : List Char) : List Char → List (List Char)
  | [] => if line.isEmpty then [] else [line.reverse]
  | c :: rest =>
      if endsLine c then line.reverse :: linesFrom [] rest else linesFrom (c :: line) rest

/-- The lines of a text. -/
def lines (s : String) : List String :=
  (linesFrom [] (unifyLineEnds s.toList)).map String.ofList

/-- The first line of a text. -/
def firstLine (s : String) : String :=
  (lines s).head?.getD ""

end SourceChunks.Text
