import Mathlib
import SourceChunks.Json.Printer
import SourceChunks.Json.Reader

/-!
# Strings, whole numbers and words, read back

The leaves of a value are the strings, the whole numbers, and the words for the
truth values and null.  Each is written in front of some text and read back from
there, with that text left over:

* `readString_escapeChar`: whatever its escape, a character takes the reader of
  strings one step.
* `readString_writeString`: a string is read back, with every character of it.
* `readScalar_int`: a whole number within the limit of digits is read back, in front
  of a text that does not go on with it; one beyond that limit is a fault that tells
  how many digits it has.
-/

namespace SourceChunks.Json

/-! ## Strings -/

/-- The four digits of a control character are read back, in front of any character. -/
theorem readHex_hexDigits {n : Nat} (hn : n < 32) {rest : List Char} (hrest : rest ≠ []) :
    readHex? (Text.hexDigits 4 n ++ rest) = some (n, rest) := by
  obtain ⟨next, rest, rfl⟩ := List.exists_cons_of_ne_nil hrest
  have hvalue : ∀ m < 16, Text.hexValue? (Text.hexDigit m) = some m := Text.hexValue_hexDigit
  have hdigits : Text.hexDigits 4 n =
      [Text.hexDigit (n / 16 / 16 / 16 % 16), Text.hexDigit (n / 16 / 16 % 16),
        Text.hexDigit (n / 16 % 16), Text.hexDigit (n % 16)] := rfl
  rw [hdigits]
  simp only [List.cons_append, List.nil_append, readHex?]
  rw [hvalue _ (by omega), hvalue _ (by omega), hvalue _ (by omega), hvalue _ (by omega)]
  simp only [Option.bind_eq_bind, Option.bind_some, Option.pure_def, Option.some.injEq,
    Prod.mk.injEq, and_true]
  omega

/-- A code unit below the space is a character of its own, whatever follows it. -/
theorem readUnicodeEscape_control {place s rest : List Char} {n : Nat} (hn : n < 32)
    (hs : readHex? s = some (n, rest)) :
    readUnicodeEscape place s = .ok (Char.ofNat n, rest) := by
  have hhigh : isHighHalf n = false := by
    simp only [isHighHalf, Bool.and_eq_false_iff, decide_eq_false_iff_not]
    omega
  have hlow : isLowHalf n = false := by
    simp only [isLowHalf, Bool.and_eq_false_iff, decide_eq_false_iff_not]
    omega
  have hunit : unitChar n = Char.ofNat n := by
    simp [unitChar, hhigh, hlow]
  rw [readUnicodeEscape, hs]
  simp only [hhigh, hunit, Bool.false_and, Bool.false_eq_true, if_false]
  split <;> rfl

/-- Behind a backslash, the letter of a short escape gives its character. -/
theorem readString_shortEscape (start : List Char) (fuel : Nat) (done rest : List Char)
    {letter c : Char} (hletter : shortEscape? letter = some c) :
    readString start (fuel + 1) done ('\\' :: letter :: rest) =
      readString start fuel (c :: done) rest := by
  have hu : letter ≠ 'u' := by
    rintro rfl
    simp [shortEscape?] at hletter
  have hescape : readEscape start (letter :: rest) = .ok (c, rest) := by
    rw [readEscape]
    · rw [hletter]
    · exact hu
  simp [readString, hescape]

/-- Whatever its escape, a character takes the reader of strings one step. -/
theorem readString_escapeChar (start : List Char) (fuel : Nat) (done : List Char) (c : Char)
    {rest : List Char} (hrest : rest ≠ []) :
    readString start (fuel + 1) done (escapeChar c ++ rest) =
      readString start fuel (c :: done) rest := by
  unfold escapeChar
  -- One case for each way to write a character: seven short escapes, the long one, and as it is.
  split_ifs with hquote hback hnewline hreturn htab hbackspace hfeed hcontrol
  · subst hquote; exact readString_shortEscape start fuel done rest rfl
  · subst hback; exact readString_shortEscape start fuel done rest rfl
  · subst hnewline; exact readString_shortEscape start fuel done rest rfl
  · subst hreturn; exact readString_shortEscape start fuel done rest rfl
  · subst htab; exact readString_shortEscape start fuel done rest rfl
  · have hc : Char.ofNat 8 = c := by rw [← hbackspace, Char.ofNat_toNat]
    rw [← hc]
    exact readString_shortEscape start fuel done rest rfl
  · have hc : Char.ofNat 12 = c := by rw [← hfeed, Char.ofNat_toNat]
    rw [← hc]
    exact readString_shortEscape start fuel done rest rfl
  · have hescape : readEscape start ('u' :: (Text.hexDigits 4 c.toNat ++ rest)) = .ok (c, rest) := by
      have hhex := readHex_hexDigits hcontrol hrest
      rw [readEscape, readUnicodeEscape_control hcontrol hhex, Char.ofNat_toNat]
    simp [readString, hescape]
  · simp [readString, hquote, hback, hcontrol]

/-- A string is read back up to its closing quote. -/
theorem readString_escaped (start : List Char) (cs : List Char) (fuel : Nat) (done rest : List Char)
    (hfuel : cs.length < fuel) :
    readString start fuel done
        (cs.foldr (fun c rest => escapeChar c ++ rest) ('"' :: rest)) =
      .ok (String.ofList (done.reverse ++ cs), rest) := by
  induction cs generalizing fuel done with
  | nil =>
      obtain ⟨fuel, rfl⟩ := Nat.exists_eq_add_of_lt hfuel
      simp [readString]
  | cons c cs ih =>
      obtain ⟨fuel, rfl⟩ : ∃ n, fuel = n + 1 := ⟨fuel - 1, by omega⟩
      -- The escape needs a next character, which is at least the closing quote.
      have hrest : cs.foldr (fun c rest => escapeChar c ++ rest) ('"' :: rest) ≠ [] := by
        cases cs with
        | nil => simp
        | cons c cs =>
            have hescape : escapeChar c ≠ [] := by
              unfold escapeChar
              split_ifs <;> simp
            simp [hescape]
      rw [List.foldr_cons, readString_escapeChar start fuel done c hrest,
        ih fuel (c :: done) (by simpa using hfuel)]
      simp

/-- A written string has at least as many characters as the string itself, and two
quotes. -/
theorem length_writeString (s : String) (rest : List Char) :
    s.toList.length + 2 + rest.length ≤ (writeString s rest).length := by
  have hescaped : ∀ cs : List Char, cs.length + rest.length + 1 ≤
      (cs.foldr (fun c rest => escapeChar c ++ rest) ('"' :: rest)).length := by
    intro cs
    induction cs with
    | nil => simp
    | cons c cs ih =>
        have hescape : 1 ≤ (escapeChar c).length := by
          unfold escapeChar
          split_ifs <;> simp
        simp only [List.foldr_cons, List.length_append, List.length_cons]
        omega
  have := hescaped s.toList
  simp only [writeString, List.length_cons]
  omega

/-- A written string is read back behind its opening quote. -/
theorem readString_writeString (start : List Char) (s : String) (fuel : Nat) (rest : List Char)
    (hfuel : (writeString s rest).length ≤ fuel) :
    ∃ body, writeString s rest = '"' :: body ∧
      readString start fuel [] body = .ok (s, rest) := by
  refine ⟨_, rfl, ?_⟩
  have hlength := length_writeString s rest
  rw [readString_escaped start s.toList fuel [] rest (by omega)]
  simp

/-! ## Whole numbers -/

/-- A text that does not go on with a number that stands before it. -/
def EndsNumber (rest : List Char) : Prop :=
  ∀ c, rest.head? = some c → c.isDigit = false ∧ c ≠ '.' ∧ c ≠ 'e' ∧ c ≠ 'E'

@[simp] theorem endsNumber_nil : EndsNumber [] := by
  intro c hc
  simp at hc

@[simp] theorem endsNumber_cons {c : Char} (rest : List Char)
    (hc : c.isDigit = false ∧ c ≠ '.' ∧ c ≠ 'e' ∧ c ≠ 'E') : EndsNumber (c :: rest) := by
  intro d hd
  simp only [List.head?_cons, Option.some.injEq] at hd
  rwa [← hd]

/-- No zero stands in front of the digits of a positive number. -/
theorem head_toDigits_ne_zero {n : Nat} (hn : 0 < n) : (Nat.toDigits 10 n).head? ≠ some '0' := by
  induction n using Nat.strong_induction_on with
  | _ n ih =>
      by_cases hsmall : n < 10
      · rw [Nat.toDigits_of_lt_base hsmall]
        interval_cases n <;> decide
      · -- The first digit of a longer number is that of its tenth part.
        rw [Nat.toDigits_of_base_le (by decide) (by omega), List.head?_append_of_ne_nil _
          Nat.toDigits_ne_nil]
        exact ih (n / 10) (by omega) (by omega)

/-- Digits are read up to the first character that is none. -/
theorem span_digits {ds rest : List Char} (hds : ∀ c ∈ ds, c.isDigit = true)
    (hrest : EndsNumber rest) : (ds ++ rest).span Char.isDigit = (ds, rest) := by
  have hstop : rest.takeWhile Char.isDigit = [] ∧ rest.dropWhile Char.isDigit = rest := by
    cases rest with
    | nil => simp
    | cons c rest =>
        obtain ⟨hc, -⟩ := hrest c rfl
        simp [hc]
  rw [List.span_eq_takeWhile_dropWhile, List.takeWhile_append_of_pos hds,
    List.dropWhile_append_of_pos hds, hstop.1, hstop.2, List.append_nil]

/-- The whole part of a number is all of its digits. -/
theorem readWhole_toDigits (n : Nat) {rest : List Char} (hrest : EndsNumber rest) :
    readWhole (Nat.toDigits 10 n ++ rest) = (Nat.toDigits 10 n, rest) := by
  rcases Nat.eq_zero_or_pos n with rfl | hn
  · rfl
  · have hdigits : ∀ c ∈ Nat.toDigits 10 n, c.isDigit = true :=
      fun c hc => Nat.isDigit_of_mem_toDigits (by decide) (by decide) hc
    have hspan := span_digits hdigits hrest
    have hzero := head_toDigits_ne_zero hn
    rw [readWhole]
    · exact hspan
    · intro rest' hcontra
      obtain ⟨c, ds, hds⟩ := List.exists_cons_of_ne_nil (Nat.toDigits_ne_nil (n := n) (b := 10))
      rw [hds, List.cons_append, List.cons.injEq] at hcontra
      rw [hds, hcontra.1] at hzero
      exact hzero rfl

/-- What the reader of numbers makes of written digits: the number, or a fault that
tells how many digits there are. -/
theorem readNumber_toDigits (start : List Char) (negative : Bool) (n : Nat) {rest : List Char}
    (hrest : EndsNumber rest) :
    readNumber start negative (Nat.toDigits 10 n ++ rest) =
      if (Nat.toDigits 10 n).length > Numeral.digitLimit then
        .error (.tooManyDigits (Nat.toDigits 10 n).length, start)
      else .ok (int (if negative then -(n : Int) else n), rest) := by
  have hfraction : readFraction rest = ([], rest) := by
    cases rest with
    | nil => rfl
    | cons c rest =>
        rw [readFraction]
        rintro rest' hcontra
        exact (hrest c rfl).2.1 (List.cons.inj hcontra).1
  have hexponent : readExponent rest = (none, rest) := by
    cases rest with
    | nil => rfl
    | cons c rest =>
        obtain ⟨-, -, he, hE⟩ := hrest c rfl
        simp [readExponent, he, hE]
  have hne : (Nat.toDigits 10 n).isEmpty = false := by simp
  simp only [readNumber, readWhole_toDigits n hrest, hne, hfraction, hexponent,
    Nat.ofDigitChars_ten_toDigits]
  simp

/-- The digits of a whole number stand behind a minus if it is negative. -/
theorem toList_toString_int (value : Int) :
    (toString value).toList =
      (if value < 0 then ['-'] else []) ++ Nat.toDigits 10 value.natAbs := by
  cases value with
  | ofNat n =>
      have hn : ¬ Int.ofNat n < 0 := by simp
      rw [if_neg hn]
      exact Nat.toList_repr
  | negSucc n =>
      have hn : Int.negSucc n < 0 := Int.negSucc_lt_zero n
      rw [if_pos hn]
      show ("-" ++ Nat.repr (n + 1)).toList = _
      simp

/-- A digit begins no word. -/
theorem wordValues_digit {c : Char} (hc : c.isDigit = true) (s : List Char) :
    (wordValues.findSome? fun (word, value) =>
      (dropWord? word (c :: s)).map fun rest => (value, rest)) = none := by
  have hne : ∀ d : Char, d.isDigit = false → d ≠ c := by
    rintro d hd rfl
    rw [hc] at hd
    contradiction
  simp [wordValues, dropWord?, hne 'n' rfl, hne 't' rfl, hne 'f' rfl,
    hne 'N' rfl, hne 'I' rfl, hne '-' rfl]

/-- A minus and a digit begin no word. -/
theorem wordValues_minus {c : Char} (hc : c.isDigit = true) (s : List Char) :
    (wordValues.findSome? fun (word, value) =>
      (dropWord? word ('-' :: c :: s)).map fun rest => (value, rest)) = none := by
  have hne : 'I' ≠ c := by
    rintro rfl
    simp at hc
  simp [wordValues, dropWord?, hne]

/-- What the reader makes of a written whole number. -/
theorem readScalar_int (value : Int) {rest : List Char} (hrest : EndsNumber rest) :
    readScalar ((toString value).toList ++ rest) =
      if (Nat.toDigits 10 value.natAbs).length > Numeral.digitLimit then
        .error (.tooManyDigits (Nat.toDigits 10 value.natAbs).length,
          (toString value).toList ++ rest)
      else .ok (int value, rest) := by
  obtain ⟨c, ds, hds⟩ :=
    List.exists_cons_of_ne_nil (Nat.toDigits_ne_nil (n := value.natAbs) (b := 10))
  have hc : c.isDigit = true :=
    Nat.isDigit_of_mem_toDigits (b := 10) (n := value.natAbs) (by decide) (by decide)
      (by rw [hds]; exact List.mem_cons_self)
  rw [toList_toString_int]
  -- The sign is read first, and then the digits of the absolute value.
  by_cases hsign : value < 0
  · have hvalue : -((value.natAbs : Nat) : Int) = value := by omega
    have hnumber := readNumber_toDigits ('-' :: (Nat.toDigits 10 value.natAbs ++ rest)) true
      value.natAbs hrest
    simp only [if_pos hsign, List.cons_append, List.nil_append] at hnumber ⊢
    rw [readScalar, hds, List.cons_append, wordValues_minus hc, ← List.cons_append, ← hds]
    simpa only [if_true, hvalue] using hnumber
  · have hvalue : ((value.natAbs : Nat) : Int) = value := by omega
    have hnumber := readNumber_toDigits (Nat.toDigits 10 value.natAbs ++ rest) false
      value.natAbs hrest
    have hminus : ∀ s, c :: (ds ++ rest) ≠ '-' :: s := by
      intro s hcontra
      rw [(List.cons.inj hcontra).1] at hc
      simp at hc
    simp only [if_neg hsign, List.nil_append]
    rw [hds, List.cons_append] at hnumber ⊢
    rw [readScalar, wordValues_digit hc]
    · simpa only [hvalue, if_false, Bool.false_eq_true] using hnumber
    · exact hminus

end SourceChunks.Json
