import Mathlib
import SourceChunks.Proofs.Source.Matching

/-!
# Blocks as a grammar derives them

A block is a bracket, then other characters and blocks in any number and order, and then the
bracket that closes it.  The search for a closing bracket only counts, but it ends behind the
block that begins where it is started, and it finds nothing if no block begins there.

* `IsBlock`, `IsRow`: the blocks, and what stands inside of them.
* `isRow_iff_level`: what stands inside of a block is where the brackets come out even.
* `closingFrom_eq_some_iff`: the search passes over a row, up to the bracket that closes it.
* `closing_eq_error_iff`, `closing_eq_some_iff`, `closing_eq_none_iff`: what the search gives.
* `closing_iff_isBlock`: the search gives the end of the block, if there is one.
-/

namespace SourceChunks

mutual

/-- A bracket, a row of other characters and blocks, and the bracket that closes it. -/
inductive IsBlock (opening closing : Char) : List Char → Prop
  | between {inside : List Char} (hinside : IsRow opening closing inside) :
      IsBlock opening closing (opening :: (inside ++ [closing]))

/-- Characters that are no brackets and blocks, in any number and order. -/
inductive IsRow (opening closing : Char) : List Char → Prop
  | nil : IsRow opening closing []
  | other {c : Char} {rest : List Char} (hopen : c ≠ opening) (hclose : c ≠ closing)
      (hrest : IsRow opening closing rest) : IsRow opening closing (c :: rest)
  | block {block rest : List Char} (hblock : IsBlock opening closing block)
      (hrest : IsRow opening closing rest) : IsRow opening closing (block ++ rest)

end

section

variable {opening closing : Char}

/-! ## Rows and counters -/

mutual

theorem IsBlock.level_eq (hne : opening ≠ closing) {block : List Char} :
    IsBlock opening closing block → ∀ depth, level opening closing depth block = some depth
  | .between hinside, depth => by
      simp [IsRow.level_eq hne hinside, hne.symm]

/-- A derivation never closes a bracket that it did not open, and closes all that it opens. -/
theorem IsRow.level_eq (hne : opening ≠ closing) {row : List Char} :
    IsRow opening closing row → ∀ depth, level opening closing depth row = some depth
  | .nil, depth => rfl
  | .other hopen hclose hrest, depth => by
      simp [hopen, hclose, IsRow.level_eq hne hrest]
  | .block hblock hrest, depth => by
      simp [IsBlock.level_eq hne hblock, IsRow.level_eq hne hrest]

end

/-- Where the brackets come out even, the first of them is closed, and they come out even in
front of the one that closes it and behind it. -/
theorem exists_split_of_level (hne : opening ≠ closing) {rest : List Char}
    (h : level opening closing 1 rest = some 0) :
    ∃ inside behind, rest = inside ++ closing :: behind ∧
      level opening closing 0 inside = some 0 ∧ level opening closing 0 behind = some 0 := by
  obtain ⟨stop, hstop⟩ := exists_closingFrom 0 h Nat.one_pos
  obtain ⟨inside, behind, rfl, -, hinside⟩ := exists_of_closingFrom hstop
  have hbalanced := (balanced_iff_level hne).mpr hinside
  have hbehind : level opening closing 0 behind = some 0 := by
    simpa [hbalanced.level_eq hne, hne.symm] using h
  exact ⟨inside, behind, rfl, hinside, hbehind⟩

/-- What has its brackets come out even is derived: its first character is in no block, or the
block that it opens is split off. -/
theorem isRow_of_level (hne : opening ≠ closing) {row : List Char}
    (h : level opening closing 0 row = some 0) : IsRow opening closing row := by
  induction hlength : row.length using Nat.strongRecOn generalizing row with
  | ind n ih =>
      subst hlength
      cases row with
      | nil => exact .nil
      | cons c rest =>
          by_cases hopen : c = opening
          · subst hopen
            have hrest : level c closing 1 rest = some 0 := by simpa using h
            obtain ⟨inside, behind, rfl, hinside, hbehind⟩ := exists_split_of_level hne hrest
            have hlength : inside.length < (c :: (inside ++ closing :: behind)).length ∧
                behind.length < (c :: (inside ++ closing :: behind)).length := by
              simp only [List.length_cons, List.length_append]
              omega
            have hblock := IsBlock.between (ih _ hlength.1 hinside rfl)
            have hrow := IsRow.block hblock (ih _ hlength.2 hbehind rfl)
            simpa using hrow
          · by_cases hclose : c = closing
            · subst hclose
              simp [hopen] at h
            · exact .other hopen hclose
                (ih _ (Nat.lt_succ_self _) (by simpa [hopen, hclose] using h) rfl)

/-- The rows are the texts in which the brackets come out even. -/
theorem isRow_iff_level (hne : opening ≠ closing) {row : List Char} :
    IsRow opening closing row ↔ level opening closing 0 row = some 0 :=
  ⟨fun h => h.level_eq hne 0, isRow_of_level hne⟩

theorem IsBlock.length_pos {block : List Char} (h : IsBlock opening closing block) :
    0 < block.length := by
  cases h
  exact Nat.succ_pos _

/-! ## The search -/

/-- The search passes over a row, up to the bracket behind it. -/
theorem closingFrom_eq_some_iff (hne : opening ≠ closing) {offset stop : Nat} {rest : List Char} :
    Bracket.closingFrom opening closing 0 offset rest = some stop ↔
      ∃ inside behind, rest = inside ++ closing :: behind ∧ IsRow opening closing inside ∧
        stop = offset + inside.length + 1 := by
  constructor
  · intro h
    obtain ⟨inside, behind, hrest, hstop, hlevel⟩ := exists_of_closingFrom h
    exact ⟨inside, behind, hrest, isRow_of_level hne hlevel, hstop⟩
  · rintro ⟨inside, behind, rfl, hinside, rfl⟩
    exact closingFrom_of_level hne offset (hinside.level_eq hne 0) behind

/-- A block at the beginning of what stands behind an offset, and the end that is found for it. -/
theorem closing_of_isBlock (hne : opening ≠ closing) {text block behind : List Char} {offset : Nat}
    (htext : text.drop offset = block ++ behind) (h : IsBlock opening closing block) :
    Bracket.closing? text offset opening closing = .ok (some (offset + block.length)) := by
  cases h with
  | @between inside hinside =>
      have hclosing : Bracket.closingFrom opening closing 0 (offset + 1)
          (inside ++ closing :: behind) = some (offset + 1 + inside.length + 1) :=
        (closingFrom_eq_some_iff hne).mpr ⟨inside, behind, rfl, hinside, rfl⟩
      have hdrop : text.drop offset = opening :: (inside ++ closing :: behind) := by
        simpa using htext
      rw [Bracket.closing?, hdrop]
      simp only [if_true, hclosing, List.length_cons, List.length_append, List.length_nil]
      congr 2
      omega

/-- What is found ends a block. -/
theorem isBlock_of_closing (hne : opening ≠ closing) {text : List Char} {offset stop : Nat}
    (h : Bracket.closing? text offset opening closing = .ok (some stop)) :
    ∃ block behind, text.drop offset = block ++ behind ∧ IsBlock opening closing block ∧
      stop = offset + block.length := by
  rw [Bracket.closing?] at h
  split at h
  · contradiction
  · next c rest hdrop =>
      split_ifs at h with hopen
      subst hopen
      obtain ⟨inside, behind, rfl, hinside, rfl⟩ :=
        (closingFrom_eq_some_iff hne).mp (Except.ok.inj h)
      refine ⟨c :: (inside ++ [closing]), behind, by rw [hdrop]; simp, .between hinside, ?_⟩
      simp only [List.length_cons, List.length_append, List.length_nil]
      omega

/-- The search is refused exactly where the bracket does not stand. -/
theorem closing_eq_error_iff {text : List Char} {offset : Nat} {failure : Bracket.NotOpening} :
    Bracket.closing? text offset opening closing = .error failure ↔
      text[offset]? ≠ some opening ∧ failure = ⟨opening, offset⟩ := by
  rw [← List.head?_drop, Bracket.closing?]
  cases text.drop offset with
  | nil => simp [eq_comm]
  | cons c rest =>
      by_cases hopen : c = opening
      · simp [hopen]
      · simp [hopen, @eq_comm _ failure]

/-- The search gives the end of the block that begins where it is started. -/
theorem closing_eq_some_iff (hne : opening ≠ closing) {text : List Char} {offset stop : Nat} :
    Bracket.closing? text offset opening closing = .ok (some stop) ↔
      stop ≤ text.length ∧ IsBlock opening closing ((⟨offset, stop⟩ : Span).slice text) := by
  constructor
  · intro h
    obtain ⟨block, behind, hdrop, hblock, rfl⟩ := isBlock_of_closing hne h
    have hlength := congrArg List.length hdrop
    have hpos := hblock.length_pos
    rw [List.length_drop, List.length_append] at hlength
    rw [Span.slice_of_drop hdrop]
    exact ⟨by omega, hblock⟩
  · rintro ⟨hle, hblock⟩
    have hdrop : text.drop offset = (⟨offset, stop⟩ : Span).slice text ++
        (text.drop offset).drop (stop - offset) :=
      (List.take_append_drop _ _).symm
    have hlength : ((⟨offset, stop⟩ : Span).slice text).length = stop - offset :=
      Span.slice_length ⟨offset, stop⟩ text hle
    have hstop : offset + (stop - offset) = stop := by
      have hpos := hblock.length_pos
      omega
    rw [closing_of_isBlock hne hdrop hblock, hlength, hstop]

/-- The search finds nothing where a bracket stands, but no block begins. -/
theorem closing_eq_none_iff (hne : opening ≠ closing) {text : List Char} {offset : Nat} :
    Bracket.closing? text offset opening closing = .ok none ↔
      text[offset]? = some opening ∧
        ∀ front, front <+: text.drop offset → ¬ IsBlock opening closing front := by
  constructor
  · intro h
    constructor
    · by_contra hopen
      rw [closing_eq_error_iff.mpr ⟨hopen, rfl⟩] at h
      contradiction
    · rintro front ⟨behind, hfront⟩ hblock
      rw [closing_of_isBlock hne hfront.symm hblock] at h
      cases h
  · rintro ⟨hopen, hnone⟩
    cases hresult : Bracket.closing? text offset opening closing with
    | error failure => exact absurd hopen (closing_eq_error_iff.mp hresult).1
    | ok stop? =>
        cases stop? with
        | none => rfl
        | some stop =>
            obtain ⟨block, behind, hdrop, hblock, -⟩ := isBlock_of_closing hne hresult
            exact absurd hblock (hnone block ⟨behind, hdrop.symm⟩)

/-- Of the beginnings of a text, only one is a block. -/
theorem IsBlock.unique (hne : opening ≠ closing) {text front front' : List Char}
    (hfront : front <+: text) (hfront' : front' <+: text) (h : IsBlock opening closing front)
    (h' : IsBlock opening closing front') : front = front' := by
  obtain ⟨behind, htext⟩ := hfront
  obtain ⟨behind', htext'⟩ := hfront'
  -- The search has one answer, and it tells the length of the block.
  have hstop : Bracket.closing? text 0 opening closing = .ok (some (0 + front.length)) :=
    closing_of_isBlock hne htext.symm h
  have hstop' : Bracket.closing? text 0 opening closing = .ok (some (0 + front'.length)) :=
    closing_of_isBlock hne htext'.symm h'
  rw [hstop] at hstop'
  have hlength : front.length = front'.length := by simpa using hstop'
  exact (List.append_inj (htext.trans htext'.symm) hlength).1

end

/-- The search for the bracket that closes the one at an offset is refused exactly if that does
not stand there.  Otherwise it gives the end of the block that begins at the offset, if any
beginning of the text from there on is a block, and none if no such beginning is one; there is
never more than one. -/
theorem closing_iff_isBlock {opening closing : Char} (hne : opening ≠ closing) (text : List Char)
    (offset : Nat) :
    (∀ failure, Bracket.closing? text offset opening closing = .error failure ↔
      text[offset]? ≠ some opening ∧ failure = ⟨opening, offset⟩) ∧
    (∀ stop, Bracket.closing? text offset opening closing = .ok (some stop) ↔
      stop ≤ text.length ∧ IsBlock opening closing ((⟨offset, stop⟩ : Span).slice text)) ∧
    (Bracket.closing? text offset opening closing = .ok none ↔
      text[offset]? = some opening ∧
        ∀ front, front <+: text.drop offset → ¬ IsBlock opening closing front) ∧
    ∀ front front', front <+: text.drop offset → front' <+: text.drop offset →
      IsBlock opening closing front → IsBlock opening closing front' → front = front' := by
  refine ⟨fun failure => closing_eq_error_iff, fun stop => closing_eq_some_iff hne,
    closing_eq_none_iff hne, ?_⟩
  intro front front' hfront hfront' h h'
  exact IsBlock.unique hne hfront hfront' h h'

/-- A block in a block, behind a bracket that is never closed. -/
theorem closing_iff_isBlock_nested :
    '{' ≠ '}' ∧ IsBlock '{' '}' "\x7ba\x7b\x7d\x7d".toList ∧
      ∀ front, front <+: "\x7b\x7ba\x7b\x7d\x7d".toList → ¬ IsBlock '{' '}' front := by
  have hne : '{' ≠ '}' := by decide
  obtain ⟨-, hsome, -⟩ := closing_iff_isBlock hne "\x7b\x7ba\x7b\x7d\x7d".toList 1
  obtain ⟨-, -, hnone, -⟩ := closing_iff_isBlock hne "\x7b\x7ba\x7b\x7d\x7d".toList 0
  exact ⟨hne, ((hsome 6).mp (by decide)).2, (hnone.mp (by decide)).2⟩

end SourceChunks
