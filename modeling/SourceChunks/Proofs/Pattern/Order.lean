import Mathlib
import SourceChunks.Proofs.Pattern.Seam

/-!
# Matches in the order of the text

A search goes on behind the stretch that it found, so each match begins behind the beginning
of the one before it and not before its end.

* `Match.Precedes`: how two matches of one search stand to each other.
* `pairwise_matchesFrom`: the matches of a search stand so, each to all later ones.
* `start_lt_stop_of_found`: a pattern that consumes something has no empty match.
* `exists_of_found_one`, `last_of_found_one`: the last character of a match whose pattern ends with a class.
-/

namespace SourceChunks

variable {L : Type}

/-- A match begins behind the beginning of another one, and not before its end. -/
def Match.Precedes (m m' : Match L) : Prop :=
  m.span.start < m'.span.start ∧ m.span.stop ≤ m'.span.start

namespace Pattern

theorem start_of_matchAt {p : Pattern L} {before : Option Char} {offset : Nat} {rest : List Char}
    {m : Match L} (h : p.matchAt before offset rest = some m) : m.span.start = offset := by
  unfold matchAt at h
  obtain ⟨stop, -, rfl⟩ := Option.map_eq_some_iff.mp h
  rfl

/-- A search finds nothing in what it skips. -/
theorem le_start_of_mem_matchesFrom {p : Pattern L} {skip : Nat} {before : Option Char}
    {offset : Nat} {rest : List Char} {m : Match L}
    (hm : m ∈ p.matchesFrom skip before offset rest) : offset + skip ≤ m.span.start := by
  induction rest generalizing skip before offset with
  | nil => cases skip <;> simp [matchesFrom] at hm
  | cons c rest ih =>
      cases skip with
      | succ skip =>
          have hle := ih hm
          omega
      | zero =>
          rw [matchesFrom] at hm
          cases hmatch : p.matchAt before offset (c :: rest) with
          | none =>
              rw [hmatch] at hm
              have hle := ih hm
              omega
          | some found =>
              rw [hmatch] at hm
              have hstart := start_of_matchAt hmatch
              rcases List.mem_cons.mp hm with rfl | hm
              · omega
              · have hle := ih hm
                omega

/-- The matches of a search are in the order of the text, and apart. -/
theorem pairwise_matchesFrom (p : Pattern L) (skip : Nat) (before : Option Char) (offset : Nat)
    (rest : List Char) : (p.matchesFrom skip before offset rest).Pairwise Match.Precedes := by
  induction rest generalizing skip before offset with
  | nil => cases skip <;> simp [matchesFrom]
  | cons c rest ih =>
      cases skip with
      | succ skip => exact ih skip (some c) (offset + 1)
      | zero =>
          rw [matchesFrom]
          cases hmatch : p.matchAt before offset (c :: rest) with
          | none => exact ih 0 (some c) (offset + 1)
          | some found =>
              refine List.pairwise_cons.mpr ⟨fun m hm => ?_, ih _ _ _⟩
              -- What is skipped goes up to the end of the match that was found.
              have hstart := start_of_matchAt hmatch
              have hle := le_start_of_mem_matchesFrom hm
              constructor <;> omega

theorem pairwise_allMatches (p : Pattern L) (text : List Char) :
    (p.allMatches text).Pairwise Match.Precedes :=
  p.pairwise_matchesFrom 0 none 0 text

theorem pairwise_matchesIn (p : Pattern L) (text : List Char) (region : Span) :
    (p.matchesIn text region).Pairwise Match.Precedes :=
  p.pairwise_matchesFrom 0 _ _ _

/-- The offset of an end counts the characters before it. -/
theorem offset_add_length_of_mem_ends {p : Pattern L} {c d : Cursor L} (hd : d ∈ ends p c) :
    d.offset + d.rest.length = c.offset + c.rest.length := by
  obtain ⟨passed, hlead⟩ := leads_of_mem_ends hd
  have hoffset := hlead.offset_eq
  have hrest := congrArg List.length hlead.rest_eq
  rw [List.length_append] at hrest
  omega

theorem offset_lt_of_mem_ends {p : Pattern L} (hp : p.Consumes) {c d : Cursor L}
    (hd : d ∈ ends p c) : c.offset < d.offset := by
  have hlength := offset_add_length_of_mem_ends hd
  have hlt := hp c d hd
  omega

/-- A pattern that consumes something has no empty match. -/
theorem start_lt_stop_of_found {p : Pattern L} (hp : p.Consumes) {text : List Char} {m : Match L}
    (hm : p.Found text m) : m.span.start < m.span.stop := by
  obtain ⟨front, rest, d, -, -, hd, rfl⟩ := hm
  exact offset_lt_of_mem_ends hp hd

/-- A pattern that ends with a character of a class has one at the end of its matches. -/
theorem exists_of_found_one {p : Pattern L} {accepts : Char → Bool} {text : List Char} {m : Match L}
    (hm : (p ++ one accepts).Found text m) :
    ∃ front x rest, text = front ++ x :: rest ∧ accepts x = true ∧
      m.span.stop = front.length + 1 := by
  obtain ⟨before, behind, d, rfl, -, hd, rfl⟩ := hm
  obtain ⟨e, he, hd⟩ := List.mem_flatMap.mp hd
  obtain ⟨passed, hlead⟩ := leads_of_mem_ends he
  have hbehind : behind = passed ++ e.rest := hlead.rest_eq
  have hoffset : e.offset = before.length + passed.length := hlead.offset_eq
  obtain ⟨x, after, hrest, hx, rfl⟩ := mem_ends_one.mp hd
  refine ⟨before ++ passed, x, after, ?_, hx, ?_⟩
  · rw [hbehind, hrest, List.append_assoc]
  · rw [List.length_append, ← hoffset]
    rfl

/-- The character before the end of such a match. -/
theorem last_of_found_one {p : Pattern L} {accepts : Char → Bool} {text whole : List Char}
    {m : Match L} (hwhole : text <+: whole) (hm : (p ++ one accepts).Found text m) :
    0 < m.span.stop ∧ ∃ x, accepts x = true ∧ whole[m.span.stop - 1]? = some x := by
  obtain ⟨front, x, rest, rfl, hx, hstop⟩ := exists_of_found_one hm
  obtain ⟨more, rfl⟩ := hwhole
  rw [hstop]
  refine ⟨Nat.succ_pos _, x, hx, ?_⟩
  rw [Nat.add_sub_cancel, List.append_assoc, List.getElem?_append_right le_rfl, Nat.sub_self]
  rfl

end Pattern

end SourceChunks
