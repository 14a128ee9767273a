import Mathlib
import SourceChunks.Document.Timestamp

/-!
# Written timestamps are read back

A valid timestamp is read back from the text that documents hold for it, whether it
has a fraction of a second or not, and whether its zone is unknown, universal time or
an offset.

* `readDigits_padded`: a number with zeros in front is read back.
* `readOffset_offsetText`: an offset of less than a day is read back.
* `ofText_text`: so is a valid timestamp.
-/

namespace SourceChunks.Timestamp

/-! ## Numbers of a fixed width -/

/-- Digits are read as the number that they denote. -/
theorem readDigits_append (ds : List Char) (hds : ∀ c ∈ ds, c.isDigit = true) (value : Nat)
    (rest : List Char) :
    readDigits? ds.length value (ds ++ rest) = some (Nat.ofDigitChars 10 ds value, rest) := by
  induction ds generalizing value with
  | nil => rfl
  | cons c ds ih =>
      have hc : c.isDigit = true := hds c List.mem_cons_self
      have hmore := ih (fun d hd => hds d (List.mem_cons_of_mem c hd)) (10 * value + (c.toNat - 48))
      simpa [readDigits?, hc, Nat.ofDigitChars_cons] using hmore

theorem isDigit_of_mem_padded {width n : Nat} {c : Char} (hc : c ∈ (padded width n).toList) :
    c.isDigit = true := by
  simp only [padded, String.toList_ofList, List.mem_append, List.mem_replicate] at hc
  rcases hc with ⟨-, rfl⟩ | hc
  · decide
  · exact Nat.isDigit_of_mem_toDigits (by decide) (by decide) hc

theorem length_padded (width n : Nat) (hn : n < 10 ^ width) (hwidth : 0 < width) :
    (padded width n).toList.length = width := by
  have hdigits : (Nat.toDigits 10 n).length ≤ width :=
    (Nat.length_toDigits_le_iff (by decide) hwidth).mpr hn
  simp only [padded, String.toList_ofList, List.length_append, List.length_replicate]
  omega

@[simp] theorem ofDigitChars_padded (width n : Nat) :
    Nat.ofDigitChars 10 (padded width n).toList 0 = n := by
  simp only [padded, String.toList_ofList, Nat.ofDigitChars_append,
    Nat.ofDigitChars_replicate_zero, Nat.mul_zero, Nat.ofDigitChars_ten_toDigits]

/-- A number with zeros in front is read back. -/
theorem readDigits_padded (width n : Nat) (hn : n < 10 ^ width) (hwidth : 0 < width)
    (rest : List Char) :
    readDigits? width 0 ((padded width n).toList ++ rest) = some (n, rest) := by
  have hread := readDigits_append (padded width n).toList
    (fun c hc => isDigit_of_mem_padded hc) 0 rest
  rwa [length_padded width n hn hwidth, ofDigitChars_padded] at hread

/-! ## Dates, times and zones -/

theorem daysInMonth_le (year month : Nat) : daysInMonth year month ≤ 31 := by
  unfold daysInMonth
  split_ifs <;> decide

theorem readDate_padded {year month day : Nat} (hyear : year ≤ 9999) (hmonth : month ≤ 12)
    (hday : day ≤ 31) (rest : List Char) :
    readDate? ((padded 4 year).toList ++ '-' :: ((padded 2 month).toList ++ '-' ::
        ((padded 2 day).toList ++ rest))) =
      some ((year, month, day), rest) := by
  have hyear := readDigits_padded 4 year (by omega) (by decide)
  have hmonth := readDigits_padded 2 month (by omega) (by decide)
  have hday := readDigits_padded 2 day (by omega) (by decide)
  simp [readDate?, hyear, hmonth, hday]

/-- The fraction of a second, as it is written. -/
def fractionText (microsecond : Nat) : List Char :=
  if microsecond = 0 then [] else '.' :: (padded 6 microsecond).toList

/-- What can stand behind a time of day: nothing, or the first character of a zone. -/
def EndsTime (rest : List Char) : Prop :=
  ∀ c, rest.head? = some c → c.isDigit = false ∧ c ≠ '.' ∧ c ≠ ','

/-- Six digits of a fraction are as many microseconds. -/
theorem microsecondsOf_padded {n : Nat} (hn : n ≤ 999999) :
    microsecondsOf (padded 6 n).toList = n := by
  have hlength := length_padded 6 n (by omega) (by decide)
  rw [microsecondsOf, List.take_left' hlength, ofDigitChars_padded]

theorem readTime_padded {hour minute second microsecond : Nat} (hhour : hour ≤ 23)
    (hminute : minute ≤ 59) (hsecond : second ≤ 59) (hmicrosecond : microsecond ≤ 999999)
    {rest : List Char} (hrest : EndsTime rest) :
    readTime? ((padded 2 hour).toList ++ ':' :: ((padded 2 minute).toList ++ ':' ::
        ((padded 2 second).toList ++ (fractionText microsecond ++ rest)))) =
      some ((hour, minute, second, microsecond), rest) := by
  have hhour := readDigits_padded 2 hour (by omega) (by decide)
  have hminute := readDigits_padded 2 minute (by omega) (by decide)
  have hsecond := readDigits_padded 2 second (by omega) (by decide)
  by_cases hzero : microsecond = 0
  · have hfraction : fractionText microsecond ++ rest = rest := by simp [fractionText, hzero]
    rw [hfraction]
    cases rest with
    | nil =>
        have hlast := hsecond []
        rw [List.append_nil] at hlast
        simp [readTime?, hhour, hminute, hlast, hzero]
    | cons c rest =>
        obtain ⟨-, hpoint, hcomma⟩ := hrest c rfl
        simp [readTime?, hhour, hminute, hsecond, hzero, hpoint, hcomma]
  · have hfraction : fractionText microsecond ++ rest =
        '.' :: ((padded 6 microsecond).toList ++ rest) := by simp [fractionText, hzero]
    have hstop : rest.takeWhile Char.isDigit = [] ∧ rest.dropWhile Char.isDigit = rest := by
      cases rest with
      | nil => simp
      | cons c rest =>
          obtain ⟨hc, -⟩ := hrest c rfl
          simp [hc]
    have hne : (padded 6 microsecond).toList ≠ [] := by
      rw [← List.length_pos_iff, length_padded 6 microsecond (by omega) (by decide)]
      decide
    rw [hfraction]
    simp only [readTime?, hhour, hminute, hsecond, Option.bind_eq_bind, Option.bind_some]
    rw [List.takeWhile_append_of_pos (fun c hc => isDigit_of_mem_padded hc),
      List.dropWhile_append_of_pos (fun c hc => isDigit_of_mem_padded hc), hstop.1, hstop.2,
      List.append_nil, microsecondsOf_padded hmicrosecond]
    simp [hne]

/-- A sign, hours and minutes are read back as the minutes that they stand for. -/
theorem readOffset_padded (negative : Bool) {n : Nat} (hn : n < 1440) :
    readOffset? ((if negative then '-' else '+') :: ((padded 2 (n / 60)).toList ++
        ':' :: (padded 2 (n % 60)).toList)) =
      some (some (if negative then -(n : Int) else n)) := by
  have hhours := readDigits_padded 2 (n / 60) (by omega) (by decide)
  have hminutes := readDigits_padded 2 (n % 60) (by omega) (by decide) []
  have hrange : n % 60 ≤ 59 := by omega
  have htotal : ((n : Int) / 60) * 60 + (n : Int) % 60 = n := by omega
  rw [List.append_nil] at hminutes
  cases negative with
  | false => simp [readOffset?, hhours, hminutes, hrange, htotal]
  | true =>
      simp [readOffset?, hhours, hminutes, hrange]
      omega

/-- An offset of less than a day is read back. -/
theorem readOffset_offsetText {minutes : Int} (hminutes : minutes.natAbs < 1440) :
    readOffset? (offsetText minutes).toList = some (some minutes) := by
  have hread := readOffset_padded (decide (minutes < 0)) hminutes
  have htext : (offsetText minutes).toList = (if decide (minutes < 0) then '-' else '+') ::
      ((padded 2 (minutes.natAbs / 60)).toList ++ ':' ::
        (padded 2 (minutes.natAbs % 60)).toList) := by
    by_cases hsign : minutes < 0 <;> simp [offsetText, hsign]
  rw [htext, hread]
  by_cases hsign : minutes < 0
  · simp only [hsign, decide_true, if_true]
    congr 2
    omega
  · simp only [hsign, decide_false, Bool.false_eq_true, if_false]
    congr 2
    omega

/-! ## Timestamps -/

/-- The zone of a timestamp, as it is written. -/
def zoneText (t : Timestamp) : List Char :=
  match t.offset with
  | none => []
  | some minutes => if minutes = 0 then ['Z'] else (offsetText minutes).toList

theorem toList_text (t : Timestamp) :
    t.text.toList =
      (padded 4 t.year).toList ++ '-' :: ((padded 2 t.month).toList ++ '-' ::
        ((padded 2 t.day).toList ++ 'T' :: ((padded 2 t.hour).toList ++ ':' ::
          ((padded 2 t.minute).toList ++ ':' :: ((padded 2 t.second).toList ++
            (fractionText t.microsecond ++ t.zoneText)))))) := by
  have hfraction : (if t.microsecond = 0 then "" else "." ++ padded 6 t.microsecond).toList =
      fractionText t.microsecond := by
    unfold fractionText
    split_ifs <;> simp
  rcases hoffset : t.offset with _ | minutes
  · simp [text, isoText, localText, zoneText, hoffset, hfraction]
  · by_cases hzero : minutes = 0
    · simp [text, localText, zoneText, hoffset, hzero, hfraction]
    · simp [text, isoText, localText, zoneText, hoffset, hzero, hfraction]

theorem endsTime_zoneText (t : Timestamp) : EndsTime t.zoneText := by
  intro c hc
  unfold zoneText at hc
  split at hc
  · simp at hc
  · split_ifs at hc with hzero
    · obtain rfl : 'Z' = c := by simpa using hc
      decide
    · unfold offsetText at hc
      split_ifs at hc with hsign
      · obtain rfl : '-' = c := by simpa using hc
        decide
      · obtain rfl : '+' = c := by simpa using hc
        decide

theorem readOffset_zoneText {t : Timestamp} (ht : t.isValid = true) :
    readOffset? t.zoneText = some t.offset := by
  unfold zoneText
  rcases hoffset : t.offset with _ | minutes
  · rfl
  · have hminutes : minutes.natAbs < 1440 := by
      simp only [isValid, hoffset, Option.all_some, Bool.and_eq_true, decide_eq_true_eq] at ht
      exact ht.2
    by_cases hzero : minutes = 0
    · simp [hzero, readOffset?]
    · simp only [hzero, if_false]
      exact readOffset_offsetText hminutes

/-- A valid timestamp is read back from its text. -/
theorem ofText_text {t : Timestamp} (ht : t.isValid = true) : ofText? t.text = some t := by
  have hzone := readOffset_zoneText ht
  have hvalid := ht
  simp only [isValid, Bool.and_eq_true, decide_eq_true_eq] at hvalid
  obtain ⟨⟨⟨⟨⟨⟨⟨⟨⟨hyear, -⟩, hmonth⟩, -⟩, hday⟩, hhour⟩, hminute⟩, hsecond⟩, hmicrosecond⟩, -⟩ := hvalid
  have hdate := readDate_padded hyear hmonth (hday.trans (daysInMonth_le _ _))
  have htime := readTime_padded hhour hminute hsecond hmicrosecond (endsTime_zoneText t)
  have hcalendar : readCalendar? t.text.toList = some t := by
    rw [toList_text]
    simp [readCalendar?, hdate, htime, hzone, ht]
  rw [ofText?, hcalendar]
  rfl

end SourceChunks.Timestamp
