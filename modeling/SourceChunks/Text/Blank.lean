/-!
# White space

The white-space characters, and the operations on texts that look at nothing
else: trimming both ends, cutting into words, and writing the words again with
single spaces between them.  A row of anything that shows a character is cut into
words by what it shows.
-/

namespace SourceChunks.Text

/-- White space: the ASCII blanks and line ends, the four information separators,
and the separators of Unicode.  The zero-width characters are not white space. -/
def isBlank (c : Char) : Bool :=
  let n := c.toNat
  n = 0x20 || (0x09 ≤ n && n ≤ 0x0D) || (0x1C ≤ n && n ≤ 0x1F) ||
    (0x80 ≤ n && (n = 0x85 || n = 0xA0 || n = 0x1680 || (0x2000 ≤ n && n ≤ 0x200A) ||
      n = 0x2028 || n = 0x2029 || n = 0x202F || n = 0x205F || n = 0x3000))

/-- A text without its leading white space. -/
def trimLeft (s : List Char) : List Char :=
  s.dropWhile isBlank

/-- A text without its trailing white space. -/
def trimRight (s : List Char) : List Char :=
  (trimLeft s.reverse).reverse

/-- A text without the white space at its two ends. -/
def trim (s : List Char) : List Char :=
  trimRight (trimLeft s)

/-- The words of a text, where `word` holds the letters of the current word so
far, the latest first. -/
def wordsFrom (word : List Char) : List Char → List (List Char)
  | [] => if word.isEmpty then [] else [word.reverse]
  | c :: rest =>
      if isBlank c then
        if word.isEmpty then wordsFrom [] rest else word.reverse :: wordsFrom [] rest
      else wordsFrom (c :: word) rest

/-- The maximal runs of characters that are not white space. -/
def words (s : List Char) : List (List Char) :=
  wordsFrom [] s

/-- The words of a text with one space between neighbours. -/
def collapse (s : List Char) : List Char :=
  List.intercalate [' '] (words s)

/-- The words of a row of letters that show a character each, where `word` holds the
letters of the current word so far, the latest first. -/
def wordsByFrom {α : Type} (shown : α → Char) (word : List α) : List α → List (List α)
  | [] => if word.isEmpty then [] else [word.reverse]
  | a :: rest =>
      if isBlank (shown a) then
        if word.isEmpty then wordsByFrom shown [] rest
        else word.reverse :: wordsByFrom shown [] rest
      else wordsByFrom shown (a :: word) rest

/-- The maximal runs of letters that do not show white space. -/
def wordsBy {α : Type} (shown : α → Char) (s : List α) : List (List α) :=
  wordsByFrom shown [] s

/-- Whether a text holds nothing but white space. -/
def allBlank (s : List Char) : Bool :=
  s.all isBlank

@[simp] theorem isBlank_newline : isBlank '\n' = true := by decide

@[simp] theorem isBlank_space : isBlank ' ' = true := by decide

theorem map_wordsByFrom {α : Type} (shown : α → Char) (word s : List α) :
    (wordsByFrom shown word s).map (·.map shown) = wordsFrom (word.map shown) (s.map shown) := by
  induction s generalizing word with
  | nil =>
      rw [wordsByFrom, List.map_nil, wordsFrom, List.isEmpty_map]
      split <;> simp
  | cons a rest ih =>
      rw [wordsByFrom, List.map_cons, wordsFrom, List.isEmpty_map]
      split
      · split
        · exact ih []
        · rw [List.map_cons, ih, List.map_reverse, List.map_nil]
      · exact ih (a :: word)

/-- What is shown of the words are the words of what is shown. -/
theorem map_wordsBy {α : Type} (shown : α → Char) (s : List α) :
    (wordsBy shown s).map (·.map shown) = words (s.map shown) :=
  map_wordsByFrom shown [] s

end SourceChunks.Text
