import Mathlib
import SourceChunks.Proofs.Pattern.Order
import SourceChunks.Proofs.Pattern.Spelling

/-!
# What a pattern takes

Of the ends of a pattern the first one counts.  Where a run stops at a character that is not of
its class, and of several choices only one can begin, the first end can be told from the text,
whatever was passed before it.

* `Pattern.Takes`: before some rest of a text, the first end of a pattern is behind a stretch.
* `Pattern.Refuses`: a pattern has no end where a text begins.
* `takes_seq`, `takes_many_cons`, …: what a pattern takes, by its structure.
* `mem_allMatches_of_matchAt`: a match at a place that no other match reaches over.
* `allMatches_of_matchAt`: a text with one match, behind white space.
-/

namespace SourceChunks

variable {L : Type} {p q : Pattern L} {s t rest : List Char} {accepts : Char → Bool}

namespace Pattern

/-- Before some rest of a text, the first end of a pattern is behind a stretch. -/
def Takes (p : Pattern L) (s rest : List Char) : Prop :=
  ∀ c : Cursor L, c.rest = s ++ rest → ∃ d, (ends p c).head? = some d ∧ d.rest = rest

/-- Where a text begins, a pattern has no end. -/
def Refuses (p : Pattern L) (s : List Char) : Prop :=
  ∀ c : Cursor L, c.rest = s → ends p c = []

/-- The end behind what a pattern takes. -/
theorem Takes.exists_end (h : p.Takes s rest) {c : Cursor L} (hc : c.rest = s ++ rest) :
    ∃ d, (ends p c).head? = some d ∧ d ∈ ends p c ∧ d.rest = rest ∧
      d.offset = c.offset + s.length := by
  obtain ⟨d, hd, hrest⟩ := h c hc
  have hmem := List.mem_of_mem_head? hd
  have hlength := offset_add_length_of_mem_ends hmem
  rw [hrest, hc, List.length_append] at hlength
  exact ⟨d, hd, hmem, hrest, by omega⟩

/-! ## Sequences and choices -/

theorem head?_flatMap_of_head? {α β : Type} {xs : List α} {f : α → List β} {x : α} {y : β}
    (hx : xs.head? = some x) (hy : (f x).head? = some y) : (xs.flatMap f).head? = some y := by
  obtain ⟨xs, rfl⟩ := List.head?_eq_some_iff.mp hx
  obtain ⟨ys, hys⟩ := List.head?_eq_some_iff.mp hy
  rw [List.flatMap_cons, hys]
  rfl

theorem head?_append_of_head? {α : Type} {xs : List α} {x : α} (hx : xs.head? = some x)
    (ys : List α) : (xs ++ ys).head? = some x := by
  rw [List.head?_append, hx, Option.some_or]

theorem takes_empty (rest : List Char) : (empty : Pattern L).Takes [] rest :=
  fun c hc => ⟨c, rfl, hc⟩

theorem takes_seq (hp : p.Takes s (t ++ rest)) (hq : q.Takes t rest) :
    (p ++ q).Takes (s ++ t) rest := by
  intro c hc
  rw [List.append_assoc] at hc
  obtain ⟨e, he, hrest⟩ := hp c hc
  obtain ⟨d, hd, hrest⟩ := hq e hrest
  exact ⟨d, head?_flatMap_of_head? he hd, hrest⟩

theorem refuses_seq (hp : p.Refuses s) : (p ++ q).Refuses s := by
  intro c hc
  simp [hp c hc]

theorem takes_either_left (hp : p.Takes s rest) : (either p q).Takes s rest := by
  intro c hc
  obtain ⟨d, hd, hrest⟩ := hp c hc
  exact ⟨d, head?_append_of_head? hd _, hrest⟩

theorem takes_either_right (hp : p.Refuses (s ++ rest)) (hq : q.Takes s rest) :
    (either p q).Takes s rest := by
  intro c hc
  obtain ⟨d, hd, hrest⟩ := hq c hc
  exact ⟨d, by rw [ends, hp c hc, List.nil_append, hd], hrest⟩

theorem refuses_either (hp : p.Refuses s) (hq : q.Refuses s) : (either p q).Refuses s := by
  intro c hc
  rw [ends, hp c hc, hq c hc]
  rfl

theorem takes_mark (label : L) (hp : p.Takes s rest) : (mark label p).Takes s rest := by
  intro c hc
  obtain ⟨d, hd, hrest⟩ := hp c hc
  exact ⟨d.withMark label c.offset, by rw [ends, List.head?_map, hd]; rfl, hrest⟩

theorem refuses_mark (label : L) (hp : p.Refuses s) : (mark label p).Refuses s := by
  intro c hc
  rw [ends, hp c hc]
  rfl

/-! ## Characters -/

theorem takes_one (accepts : Char → Bool) {x : Char} (hx : accepts x = true) (rest : List Char) :
    (one (L := L) accepts).Takes [x] rest := by
  intro c hc
  exact ⟨c.advance x rest, by simp [ends_one_cons accepts hc, hx], rfl⟩

theorem refuses_one (h : ∀ x ∈ s.head?, accepts x = false) :
    (one (L := L) accepts).Refuses s := by
  intro c hc
  cases s with
  | nil => rw [ends, hc]
  | cons x s => simp [ends_one_cons accepts hc, h x rfl]

/-- A run goes up to the first character that is not of its class. -/
theorem takes_run (hs : ∀ x ∈ s, accepts x = true) (hrest : ∀ x ∈ rest.head?, accepts x = false) :
    (run (L := L) accepts).Takes s rest := by
  induction s with
  | nil =>
      intro c hc
      rw [List.nil_append] at hc
      cases rest with
      | nil => exact ⟨c, by simp [hc], hc⟩
      | cons x rest => exact ⟨c, by simp [ends_run_cons accepts hc, hrest x rfl], hc⟩
  | cons x s ih =>
      obtain ⟨hx, hs⟩ := List.forall_mem_cons.mp hs
      intro c hc
      obtain ⟨d, hd, hrest⟩ := ih hs (c.advance x (s ++ rest)) rfl
      refine ⟨d, ?_, hrest⟩
      rw [ends_run_cons accepts hc, if_pos hx]
      exact head?_append_of_head? hd _

theorem takes_some1 (hne : s ≠ []) (hs : ∀ x ∈ s, accepts x = true)
    (hrest : ∀ x ∈ rest.head?, accepts x = false) : (some1 (L := L) accepts).Takes s rest := by
  obtain ⟨x, s, rfl⟩ := List.exists_cons_of_ne_nil hne
  obtain ⟨hx, hs⟩ := List.forall_mem_cons.mp hs
  exact takes_seq (takes_one accepts hx _) (takes_run hs hrest)

theorem takes_literal (s rest : List Char) : (literal (L := L) s).Takes s rest := by
  induction s with
  | nil => exact takes_empty rest
  | cons x s ih => exact takes_seq (takes_one (· == x) (beq_self_eq_true x) _) ih

theorem takes_word (text : String) (rest : List Char) :
    (word (L := L) text).Takes text.toList rest :=
  takes_literal text.toList rest

/-- A word is refused where its first character does not stand. -/
theorem refuses_word {text : String} {y : Char} (htext : text.toList.head? = some y)
    (hs : s.head? ≠ some y) : (word (L := L) text).Refuses s := by
  obtain ⟨ys, hys⟩ := List.head?_eq_some_iff.mp htext
  rw [word, hys]
  refine refuses_seq (refuses_one fun x hx => ?_)
  rw [beq_eq_false_iff_ne]
  rintro rfl
  exact hs hx

/-! ## Repetitions -/

/-- Where there is no further round, a repetition ends. -/
@[simp] theorem takes_many_nil (hp : p.Refuses rest) : (many p).Takes [] rest := by
  intro c hc
  refine ⟨c, ?_, hc⟩
  rw [ends]
  cases c.rest.length with
  | zero => rfl
  | succ fuel =>
      rw [roundEnds, hp c hc]
      rfl

/-- A repetition takes a round, and then goes on. -/
@[simp] theorem takes_many_cons (hconsumes : p.Consumes) (hp : p.Takes s (t ++ rest))
    (hmany : (many p).Takes t rest) : (many p).Takes (s ++ t) rest := by
  intro c hc
  rw [List.append_assoc] at hc
  obtain ⟨e, he, hrest⟩ := hp c hc
  obtain ⟨d, hd, hrest⟩ := hmany e hrest
  refine ⟨d, ?_, hrest⟩
  have hlt : e.rest.length < c.rest.length := hconsumes c e (List.mem_of_mem_head? he)
  obtain ⟨fuel, hfuel⟩ := Nat.exists_eq_add_of_lt hlt
  have hle : e.rest.length ≤ e.rest.length + fuel := Nat.le_add_right _ _
  rw [ends, hfuel, roundEnds]
  refine head?_append_of_head? (head?_flatMap_of_head? he ?_) _
  rwa [roundEnds_fuel hconsumes hle le_rfl]

/-! ## Searches -/

/-- In white space, no place is the edge of a word. -/
theorem matchesFrom_blank (hp : p.AtEdge) {lead : List Char}
    (hlead : ∀ x ∈ lead, Text.isBlank x = true) {before : Option Char}
    (hbefore : before.any Text.isWord = false) (offset : Nat) (rest : List Char) :
    p.matchesFrom 0 before offset (lead ++ rest) =
      p.matchesFrom 0 (lead.getLast?.or before) (offset + lead.length) rest := by
  induction lead generalizing before offset with
  | nil => rfl
  | cons x lead ih =>
      obtain ⟨hx, hlead⟩ := List.forall_mem_cons.mp hlead
      have hword : Text.isWord x = false := Text.isWord_of_isBlank hx
      have hedge := atEdge_eq_false (L := L) (c := ⟨before, x :: (lead ++ rest), offset, []⟩)
        hbefore hword
      have hnone : p.matchAt before offset (x :: (lead ++ rest)) = none := by
        rw [matchAt_eq, ends_eq_nil_of_atEdge hp hedge]
        rfl
      have hlast : (x :: lead).getLast?.or before = lead.getLast?.or (some x) := by
        rw [List.getLast?_cons]
        cases lead.getLast? <;> rfl
      rw [List.cons_append, matchesFrom, hnone]
      simp only
      rw [ih hlead (by simpa using hword), hlast, List.length_cons, Nat.add_assoc,
        Nat.add_comm 1]

/-- A search finds what begins at a place that no match from further ahead reaches over. -/
theorem mem_matchesFrom_of_matchAt {skip : Nat} {front passed : List Char} (hrest : rest ≠ [])
    {m : Match L}
    (hm : p.matchAt (front ++ passed).getLast? (front ++ passed).length rest = some m)
    (hclear : ∀ m', p.Found (front ++ passed ++ rest) m' →
      m'.span.start < (front ++ passed).length → m'.span.stop ≤ (front ++ passed).length)
    (hskip : skip ≤ passed.length) :
    m ∈ p.matchesFrom skip front.getLast? front.length (passed ++ rest) := by
  -- What is still to be skipped never goes beyond the place.
  induction passed generalizing skip front with
  | nil =>
      obtain rfl : skip = 0 := Nat.le_zero.mp hskip
      obtain ⟨x, rest, rfl⟩ := List.exists_cons_of_ne_nil hrest
      rw [List.append_nil] at hm
      rw [List.nil_append, matchesFrom, hm]
      exact List.mem_cons_self
  | cons c passed ih =>
      have hnext : ∀ skip ≤ passed.length,
          m ∈ p.matchesFrom skip (some c) (front.length + 1) (passed ++ rest) := by
        intro skip hskip
        have hsplit : front ++ c :: passed = front ++ [c] ++ passed := by simp
        rw [hsplit] at hm hclear
        have hmem := ih hm hclear hskip
        rwa [List.getLast?_concat, List.length_append] at hmem
      cases skip with
      | succ skip => exact hnext skip (Nat.le_of_succ_le_succ hskip)
      | zero =>
          rw [List.cons_append, matchesFrom]
          cases hmatch : p.matchAt front.getLast? front.length (c :: (passed ++ rest)) with
          | none => exact hnext 0 (Nat.zero_le _)
          | some found =>
              have hstart := start_of_matchAt hmatch
              have hfound : p.Found (front ++ c :: passed ++ rest) found := by
                rw [List.append_assoc]
                exact found_of_matchAt (List.cons_ne_nil _ _) hmatch
              have hstop := hclear found hfound (by simp [hstart])
              rw [List.length_append, List.length_cons] at hstop
              exact List.mem_cons_of_mem _ (hnext _ (by omega))

theorem mem_allMatches_of_matchAt {front : List Char} (hrest : rest ≠ []) {m : Match L}
    (hm : p.matchAt front.getLast? front.length rest = some m)
    (hclear : ∀ m', p.Found (front ++ rest) m' → m'.span.start < front.length →
      m'.span.stop ≤ front.length) :
    m ∈ p.allMatches (front ++ rest) := by
  have hsearch : m ∈ p.matchesFrom 0 ([] : List Char).getLast? ([] : List Char).length
      (front ++ rest) :=
    mem_matchesFrom_of_matchAt hrest hm hclear (Nat.zero_le _)
  exact hsearch

/-- A match behind white space is the only one, if it precedes no other one. -/
theorem allMatches_of_matchAt (hp : p.AtEdge) {lead : List Char}
    (hlead : ∀ x ∈ lead, Text.isBlank x = true) (hne : rest ≠ []) {m : Match L}
    (hm : p.matchAt lead.getLast? lead.length rest = some m)
    (honly : ∀ m' ∈ p.allMatches (lead ++ rest), ¬ m.Precedes m') :
    p.allMatches (lead ++ rest) = [m] := by
  obtain ⟨x, rest, rfl⟩ := List.exists_cons_of_ne_nil hne
  obtain ⟨more, hmore⟩ : ∃ more, p.allMatches (lead ++ x :: rest) = m :: more := by
    rw [allMatches, matchesFrom_blank hp hlead rfl, Option.or_none, Nat.zero_add, matchesFrom, hm]
    exact ⟨_, rfl⟩
  have hpairwise := p.pairwise_allMatches (lead ++ x :: rest)
  rw [hmore, List.pairwise_cons] at hpairwise
  rw [hmore] at honly ⊢
  cases more with
  | nil => rfl
  | cons m' more =>
      exact absurd (hpairwise.1 m' List.mem_cons_self)
        (honly m' (List.mem_cons_of_mem m List.mem_cons_self))

end Pattern

end SourceChunks
