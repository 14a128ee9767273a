import SourceChunks.Text.Ranges
import SourceChunks.Text.CaseTable

/-!
# Lower case

The lower-case form of a text.  Every character has its own image, except for
the capital sigma, which becomes a final sigma at the end of a word: after a
cased character and not before one, where the characters that carry no case,
such as accents and apostrophes, are passed over.
-/

namespace SourceChunks.Text

/-- The small letter of a capital in one of the runs. -/
def lowerIn (n : Nat) : List CaseRun → Nat
  | [] => n
  | run :: rest =>
      if n < run.first then n
      else if n ≤ run.last && (n - run.first) % run.step = 0 then run.small + (n - run.first)
      else lowerIn n rest

/-- The lower-case image of one character, apart from its context. -/
def lowerChar (c : Char) : List Char :=
  if c.toNat < 128 then [c.toLower]
  else if c.toNat = 0x130 then ['i', Char.ofNat 0x307]
  else [Char.ofNat (lowerIn c.toNat lowerRuns)]

/-- Whether the first character that matters for case is a cased one. -/
def leadsCased (s : List Char) : Bool :=
  match s.dropWhile fun c => inRanges c.toNat caseIgnorableRanges with
  | [] => false
  | c :: _ => inRanges c.toNat casedRanges

/-- The lower-case form of a text, where `before` is what precedes it, the
nearest character first. -/
def lowerFrom (before : List Char) : List Char → List Char
  | [] => []
  | c :: rest =>
      let image :=
        if c.toNat = 0x3A3 then
          [Char.ofNat (if leadsCased before && !leadsCased rest then 0x3C2 else 0x3C3)]
        else lowerChar c
      image ++ lowerFrom (c :: before) rest

/-- The lower-case form of a text. -/
def lower (s : String) : String :=
  String.ofList (lowerFrom [] s.toList)

end SourceChunks.Text
