import SourceChunks.Text.Lines

/-!
# Encodings

The bytes of a file stand for a text in one of three encodings.  Bytes that stand for
no text are refused as a whole.  The text of a file has its line ends unified, and a
text that is written to a file is encoded as it is.
-/

namespace SourceChunks

/-- How bytes stand for characters. -/
inductive Encoding where
  /-- One to four bytes for a character; only the shortest form of each is right. -/
  | utf8
  /-- One byte for each of the first 256 characters. -/
  | latin1
  /-- One byte for each of the first 128 characters. -/
  | ascii
  deriving Repr, DecidableEq

namespace Encoding

/-- The character that a single byte stands for by its number. -/
def byteChar (b : UInt8) : Char :=
  Char.ofNat b.toNat

/-- The characters that bytes stand for one by one. -/
def bytewise (bytes : ByteArray) : String :=
  String.ofList (bytes.data.toList.map byteChar)

/-- The text that bytes stand for. -/
def decode? (encoding : Encoding) (bytes : ByteArray) : Option String :=
  match encoding with
  | utf8 => String.fromUTF8? bytes
  | latin1 => some (bytewise bytes)
  | ascii => if bytes.data.all (· < 128) then some (bytewise bytes) else none

/-- The text of a file with the given bytes. -/
def readText? (encoding : Encoding) (bytes : ByteArray) : Option String :=
  (encoding.decode? bytes).map fun s => String.ofList (Text.unifyLineEnds s.toList)

/-- Every text can be read back from its bytes. -/
theorem decode_utf8_toUTF8 (s : String) : utf8.decode? s.toUTF8 = some s := by
  simp only [decode?, String.fromUTF8?]
  exact dif_pos s.isValidUTF8

/-- The encoding of a text as the reader sees it: the text with unified line ends. -/
theorem readText_utf8_toUTF8 (s : String) :
    utf8.readText? s.toUTF8 = some (String.ofList (Text.unifyLineEnds s.toList)) := by
  rw [readText?, decode_utf8_toUTF8]
  rfl

end Encoding

end SourceChunks
