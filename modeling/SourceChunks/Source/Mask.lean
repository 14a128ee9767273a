import SourceChunks.Text.Blank

/-!
# Masking comments and literals

A mask is a copy of a source text in which comments and the interiors of string
and template literals are blanked out.  It has a space for every character that
was blanked, so offsets and line ends are those of the text, and every bracket,
quote and word that is left in it is part of the program.

Comments begin with two slashes, or with a number sign that has only white space
before it on its line, and end with the line.  A string ends at its closing
quote or with the line, where a backslash takes the following character with it,
whatever that is.  A template ends at the next backtick.  The quotes themselves
are kept.
-/

namespace SourceChunks

/-- What a masking scan is in the middle of. -/
inductive MaskMode where
  /-- Program text; `fresh` tells that the line so far holds only white space. -/
  | code (fresh : Bool)
  /-- A comment. -/
  | comment
  /-- A string; `escaped` tells that the next character belongs to a backslash. -/
  | string (escaped : Bool)
  /-- A template. -/
  | template
  deriving Repr, DecidableEq

namespace MaskMode

/-- The backtick that opens and closes a template. -/
def backtick : Char := '\x60'

/-- Whether a character of program text opens a comment. -/
def opensComment (fresh : Bool) (c : Char) (rest : List Char) : Bool :=
  (c == '/' && rest.head? == some '/') || (c == '#' && fresh)

/-- Whether a character is blanked in a mode. -/
def blanks (mode : MaskMode) (c : Char) (rest : List Char) : Bool :=
  match mode with
  | code fresh => opensComment fresh c rest
  | comment => c != '\n'
  | string escaped => c != '\n' && (escaped || c != '"')
  | template => c != '\n' && c != backtick

/-- The mode after a character. -/
def next (mode : MaskMode) (c : Char) (rest : List Char) : MaskMode :=
  match mode with
  | code fresh =>
      if opensComment fresh c rest then comment
      else if c = '"' then string false
      else if c = backtick then template
      else code (c = '\n' || (fresh && Text.isBlank c))
  | comment => if c = '\n' then code true else comment
  | string true => string false
  | string false =>
      if c = '"' then code false
      else if c = '\n' then code true
      else string (c = '\\')
  | template => if c = backtick then code false else template

end MaskMode

/-- The mask of the rest of a text, from a mode on. -/
def maskFrom : MaskMode → List Char → List Char
  | _, [] => []
  | mode, c :: rest =>
      (if mode.blanks c rest then ' ' else c) :: maskFrom (mode.next c rest) rest

/-- The mask of a text. -/
def mask (text : List Char) : List Char :=
  maskFrom (.code true) text

@[simp] theorem maskFrom_length (mode : MaskMode) (text : List Char) :
    (maskFrom mode text).length = text.length := by
  induction text generalizing mode with
  | nil => rfl
  | cons c rest ih => simp [maskFrom, ih]

@[simp] theorem mask_length (text : List Char) : (mask text).length = text.length :=
  maskFrom_length _ text

end SourceChunks
