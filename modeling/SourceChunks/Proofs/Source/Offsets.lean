import Mathlib
import SourceChunks.Proofs.Source.Points

/-!
# Offsets of points

A point tells where its character stands: so many characters behind the line end before its
line.  That place is found by a walk through the text, or in the table of line ends.  So a point
tells the offset that it was computed for, and no two offsets of a text have the same point.

* `Point.offset?`: the offset that a point tells of.
* `offset?_pointAt`: the point of an offset tells of that offset.
* `lineStart?_eq_newlines`: lines begin behind the line ends of the table.
* `LineIndex.offset?`: the offset that a point tells of, by the table.
* `offsets_of_points`: points are in the order of their offsets, and tell them.
-/

namespace SourceChunks

/-! ## Offsets by the text -/

/-- The offset at which a line of a text begins; lines count from one. -/
def lineStart? : (line : Nat) → List Char → Option Nat
  | 0, _ => none
  | 1, _ => some 0
  | _ + 2, [] => none
  | line + 2, c :: rest =>
      (lineStart? (if c = '\n' then line + 1 else line + 2) rest).map (· + 1)

@[simp] theorem lineStart?_cons (line : Nat) (c : Char) (rest : List Char) :
    lineStart? (line + 2) (c :: rest) =
      (lineStart? (if c = '\n' then line + 1 else line + 2) rest).map (· + 1) := by
  rw [lineStart?]

/-- A line begins behind the line end before it. -/
theorem lineStart?_of_newline (front rest : List Char) :
    lineStart? (front.count '\n' + 2) (front ++ '\n' :: rest) = some (front.length + 1) := by
  induction front with
  | nil =>
      rw [List.nil_append, List.count_nil, lineStart?_cons, if_pos rfl, lineStart?]
      rfl
  | cons c front ih =>
      rw [List.cons_append, lineStart?_cons]
      by_cases hc : c = '\n'
      · have hcount : (c :: front).count '\n' = front.count '\n' + 1 := by simp [hc]
        rw [if_pos hc, hcount, ih]
        rfl
      · have hcount : (c :: front).count '\n' = front.count '\n' := by simp [hc]
        rw [if_neg hc, hcount, ih]
        rfl

namespace Point

/-- The offset of the character that a point tells of: that of the `column`-th character behind
the line end before its line. -/
def offset? (text : List Char) (p : Point) : Option Nat :=
  if p.column = 0 then none else (lineStart? p.line text).map (· + (p.column - 1))

theorem offset?_next_column {text : List Char} {line column offset : Nat}
    (h : offset? text ⟨line, column + 1⟩ = some offset) :
    offset? text ⟨line, column + 2⟩ = some (offset + 1) := by
  rw [offset?, if_neg (Nat.succ_ne_zero _)] at h ⊢
  obtain ⟨start, hstart, rfl⟩ := Option.map_eq_some_iff.mp h
  rw [hstart]
  rfl

/-- The point of a place tells how much is before it, whatever comes behind. -/
@[simp] theorem offset?_behind (front rest : List Char) :
    offset? (front ++ rest) (behind front) = some front.length := by
  -- One character further on, the place is in the next column or at the beginning of a line.
  induction front using List.reverseRecOn generalizing rest with
  | nil =>
      change (lineStart? 1 rest).map (· + 0) = some 0
      rw [lineStart?]
      rfl
  | append_singleton front c ih =>
      rw [behind_concat, List.append_assoc, List.singleton_append, List.length_append,
        List.length_singleton]
      split_ifs with hc
      · subst hc
        rw [offset?, if_neg Nat.one_ne_zero]
        exact congrArg (Option.map (· + 0)) (lineStart?_of_newline front rest)
      · exact offset?_next_column (ih (c :: rest))

end Point

/-- The point of an offset tells of that offset. -/
theorem offset?_pointAt {text : List Char} {offset : Nat} (hoffset : offset ≤ text.length) :
    ((LineIndex.ofText text).pointAt offset).offset? text = some offset := by
  have hbehind := Point.offset?_behind (text.take offset) (text.drop offset)
  rwa [List.take_append_drop, List.length_take_of_le hoffset,
    ← LineIndex.pointAt_eq_behind hoffset] at hbehind

/-! ## Offsets by the table -/

/-- A line other than the first one begins behind the line end that the table lists for the line
before it. -/
theorem lineStart?_eq_newlines (line : Nat) (text : List Char) :
    lineStart? (line + 2) text = (newlinesFrom 0 text)[line]?.map (1 + ·) := by
  induction text generalizing line with
  | nil => rw [lineStart?, newlinesFrom, List.getElem?_nil, Option.map_none]
  | cons c rest ih =>
      -- The line ends of the rest are one character further on.
      have hrest : ∀ i : Nat, (newlinesFrom (0 + 1) rest)[i]?.map (1 + ·) =
          ((newlinesFrom 0 rest)[i]?.map (1 + ·)).map (· + 1) := by
        intro i
        rw [newlinesFrom_shift, List.getElem?_map, Option.map_map, Option.map_map]
        rfl
      rw [lineStart?_cons, newlinesFrom]
      split_ifs with hc
      · cases line with
        | zero =>
            rw [lineStart?, List.getElem?_cons_zero]
            rfl
        | succ line => rw [List.getElem?_cons_succ, hrest, ih]
      · rw [hrest, ih]

namespace LineIndex

/-- The offset at which a line begins: the first line at the beginning of the text, and any other
one behind the line end of the line before it. -/
def lineStart? (index : LineIndex) : (line : Nat) → Option Nat
  | 0 => none
  | 1 => some 0
  | line + 2 => index.newlines[line]?.map (1 + ·)

/-- The offset that a point tells of. -/
def offset? (index : LineIndex) (p : Point) : Option Nat :=
  if p.column = 0 then none else (index.lineStart? p.line).map (p.column - 1 + ·)

/-- The table of a text tells where its lines begin. -/
@[simp] theorem lineStart?_ofText (text : List Char) (line : Nat) :
    (ofText text).lineStart? line = SourceChunks.lineStart? line text := by
  match line with
  | 0 => rw [lineStart?, SourceChunks.lineStart?]
  | 1 => rw [lineStart?, SourceChunks.lineStart?]
  | line + 2 => exact (lineStart?_eq_newlines line text).symm

/-- A point tells of the same offset by the table and by the text. -/
@[simp] theorem offset?_ofText (text : List Char) (p : Point) :
    (ofText text).offset? p = p.offset? text := by
  rw [offset?, Point.offset?, lineStart?_ofText]
  simp only [Nat.add_comm]

/-- Every offset in a text or at its end has a point, which tells the offset: it is one less than
the column, counted from the beginning of the text on the first line, and from behind the last
line end before it on any other line.  No other offset has the same point, and the points of all
earlier offsets come before it. -/
theorem offsets_of_points (text : List Char) {offset : Nat} (hoffset : offset ≤ text.length) :
    ∃ p, (ofText text).point offset = .ok p ∧ (ofText text).offset? p = some offset ∧
      (∀ other : ℤ, (ofText text).point other = .ok p → other = offset) ∧
      ∀ earlier < offset, ∃ q, (ofText text).point earlier = .ok q ∧ q.key < p.key := by
  refine ⟨(ofText text).pointAt offset, point_eq_ok text hoffset, ?_, fun other hother => ?_,
    fun earlier hlt => ?_⟩
  · rw [offset?_ofText, offset?_pointAt hoffset]
  · rcases checkOffset_cases text.length other with ⟨n, hn, rfl, -⟩ | ⟨-, hcheck⟩
    · -- Both offsets are told by the same point.
      rw [point_eq_ok text hn, Except.ok.injEq] at hother
      have htold := congrArg (Point.offset? text) hother
      rw [offset?_pointAt hn, offset?_pointAt hoffset] at htold
      exact congrArg Nat.cast (Option.some.inj htold)
    · simp [point, ofText, hcheck, Except.map] at hother
  · have hearlier : earlier ≤ text.length := hlt.le.trans hoffset
    have hkey := strictMonoOn_key_pointAt text hearlier hoffset hlt
    exact ⟨_, point_eq_ok text hearlier, hkey⟩

/-- A text with an empty line, and with a carriage return in front of a line feed. -/
def emptyLine : List Char :=
  "x\n\ny\r\nz".toList

/-- The offset is that of the empty line's own line end. -/
theorem offsets_of_points_emptyLine :
    2 ≤ emptyLine.length ∧
      ∃ p, (ofText emptyLine).point 2 = .ok p ∧ (ofText emptyLine).offset? p = some 2 ∧
        (∀ other : ℤ, (ofText emptyLine).point other = .ok p → other = 2) ∧
        ∀ earlier : ℕ, earlier < 2 →
          ∃ q, (ofText emptyLine).point earlier = .ok q ∧ q.key < p.key := by
  have hoffset : 2 ≤ emptyLine.length := by decide
  exact ⟨hoffset, offsets_of_points emptyLine hoffset⟩

end LineIndex

end SourceChunks
