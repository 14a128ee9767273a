import SourceChunks.Text.Hex

/-!
# Code points

A text is a row of characters.  One that was not decoded from UTF-8, such as the name of
a file whose bytes are not UTF-8, may hold halves of surrogate pairs besides.  A half is
no character: it can be searched and cut like one, but it has no encoding, and a text
that holds one cannot be encoded.
-/

namespace SourceChunks

/-- A character, or a half of a surrogate pair that stands without the other half. -/
inductive CodePoint where
  | char (c : Char)
  | half (unit : Fin 0x800)
  deriving Repr, DecidableEq

namespace CodePoint

/-- The first code unit that is a half of a surrogate pair. -/
def firstHalf : Nat := 0xD800

/-- Whether a code point is a half. -/
def isHalf : CodePoint → Bool
  | char _ => false
  | half _ => true

/-- The character that a code point shows.  A half shows the replacement character, which
is, as a half is, neither white space nor part of a word nor a mark. -/
def shown : CodePoint → Char
  | char c => c
  | half _ => Char.ofNat 0xFFFD

@[simp] theorem isHalf_char (c : Char) : (char c).isHalf = false := rfl

@[simp] theorem isHalf_half (unit : Fin 0x800) : (half unit).isHalf = true := rfl

@[simp] theorem shown_char (c : Char) : (char c).shown = c := rfl

end CodePoint

/-- A text that may hold halves. -/
abbrev RawText := List CodePoint

/-- Why a text cannot be encoded: the place of its first half, that half, and how many
halves stand there in a row. -/
structure Unencodable where
  /-- The offset of the first half. -/
  offset : Nat
  /-- The half at that offset. -/
  unit : Fin 0x800
  /-- The number of halves in a row from there on. -/
  count : Nat
  deriving Repr, DecidableEq

/-- The wording of the failure. -/
def Unencodable.message (e : Unencodable) : String :=
  let what :=
    if e.count = 1 then
      "character '\\u" ++ String.ofList (Text.hexDigits 4 (CodePoint.firstHalf + e.unit)) ++
        "' in position " ++ toString e.offset
    else
      "characters in position " ++ toString e.offset ++ "-" ++ toString (e.offset + e.count - 1)
  "'utf-8' codec can't encode " ++ what ++ ": surrogates not allowed"

namespace RawText

/-- The characters that a text shows. -/
def chars (s : RawText) : List Char :=
  s.map CodePoint.shown

/-- The text that a text shows. -/
def text (s : RawText) : String :=
  String.ofList (chars s)

/-- A text without halves. -/
def ofString (s : String) : RawText :=
  s.toList.map .char

/-- No code point of a text is a half. -/
def NoHalves (s : RawText) : Prop :=
  ∀ p ∈ s, p.isHalf = false

/-- The failure to encode the rest of a text from an offset on, if it holds a half. -/
def failureFrom? (offset : Nat) : RawText → Option Unencodable
  | [] => none
  | .char _ :: rest => failureFrom? (offset + 1) rest
  | .half unit :: rest => some ⟨offset, unit, (rest.takeWhile CodePoint.isHalf).length + 1⟩

/-- The characters of a text, all of which have an encoding. -/
def encode (s : RawText) : Except Unencodable String :=
  match failureFrom? 0 s with
  | none => .ok (text s)
  | some e => .error e

@[simp] theorem chars_nil : chars [] = [] := rfl

@[simp] theorem chars_append (s t : RawText) : chars (s ++ t) = chars s ++ chars t :=
  List.map_append

@[simp] theorem chars_ofString (s : String) : chars (ofString s) = s.toList := by
  simp [chars, ofString, Function.comp_def]

@[simp] theorem toList_text (s : RawText) : (text s).toList = chars s :=
  String.toList_ofList

@[simp] theorem text_nil : text [] = "" := rfl

@[simp] theorem text_append (s t : RawText) : text (s ++ t) = text s ++ text t := by
  rw [text, chars_append, String.ofList_append]
  rfl

@[simp] theorem text_ofString (s : String) : text (ofString s) = s := by
  rw [text, chars_ofString, String.ofList_toList]

theorem failureFrom_eq_none {offset : Nat} {s : RawText} :
    failureFrom? offset s = none ↔ NoHalves s := by
  unfold NoHalves
  induction s generalizing offset with
  | nil => simp [failureFrom?]
  | cons p rest ih =>
      cases p with
      | char c => simp [failureFrom?, ih]
      | half unit => simp [failureFrom?]

/-- A text that can be encoded holds no half, and is encoded as it is shown. -/
theorem of_encode_eq_ok {s : RawText} {t : String} (h : encode s = .ok t) :
    t = text s ∧ NoHalves s := by
  unfold encode at h
  split at h
  · rename_i hnone
    exact ⟨(Except.ok.inj h).symm, failureFrom_eq_none.mp hnone⟩
  · contradiction

/-- Encoding fails at the first half of a text. -/
theorem failureFrom_append (offset : Nat) {front : RawText} (unit : Fin 0x800) (rest : RawText)
    (h : NoHalves front) :
    failureFrom? offset (front ++ .half unit :: rest) =
      some ⟨offset + front.length, unit, (rest.takeWhile CodePoint.isHalf).length + 1⟩ := by
  induction front generalizing offset with
  | nil => rfl
  | cons p front ih =>
      obtain ⟨hp, hfront⟩ := List.forall_mem_cons.mp h
      cases p with
      | char c =>
          rw [List.cons_append, failureFrom?, ih (offset + 1) hfront, List.length_cons,
            Nat.add_assoc, Nat.add_comm 1]
      | half other => contradiction

end RawText

end SourceChunks
